/-
  The status flags of one descriptor, as `FdCtx::init`, the hooked `fcntl` and the hooked `ioctl`
  keep them.

  The `FdCtx` remembers what the user asked for, and the kernel shall keep the socket nonblocking
  whatever that was.  `fcntl(F_SETFL)` puts `O_NONBLOCK` back into its argument before it calls the
  kernel; `ioctl(FIONBIO)` hands its argument on as it is.
-/
import Mathlib.Data.List.Infix
import Muhui.Descriptors.FdCtx

namespace Muhui.Descriptors

/-! ### The kernel -/

def O_NONBLOCK : BitVec 32 := 0o4000#32

/-- The flags that `F_SETFL` can change: `O_APPEND`, `O_NONBLOCK`, `O_ASYNC`, `O_DIRECT` and
`O_NOATIME`. -/
def SETFL_MASK : BitVec 32 :=
  0o2000#32 ||| O_NONBLOCK ||| 0o20000#32 ||| 0o40000#32 ||| 0o1000000#32

/-- The flags contain `O_NONBLOCK`. -/
def nonblock (flags : BitVec 32) : Bool := flags &&& O_NONBLOCK != 0#32

/-- The flags after `fcntl_f(fd, F_SETFL, arg)`. -/
def fcntlF (flags arg : BitVec 32) : BitVec 32 := flags &&& ~~~SETFL_MASK ||| arg &&& SETFL_MASK

/-- The flags after `ioctl_f(fd, FIONBIO, &v)`. -/
def ioctlF (flags v : BitVec 32) : BitVec 32 :=
  if v = 0#32 then flags &&& ~~~O_NONBLOCK else flags ||| O_NONBLOCK

theorem nonblock_eq (flags : BitVec 32) : nonblock flags = flags.getLsbD 11 := by
  have hmask : O_NONBLOCK = BitVec.twoPow 32 11 := by decide
  rw [nonblock, hmask, BitVec.and_twoPow]
  cases flags.getLsbD 11 with
  | false => rfl
  | true => decide

@[simp] theorem nonblock_or (flags : BitVec 32) : nonblock (flags ||| O_NONBLOCK) = true := by
  have hbit : O_NONBLOCK.getLsbD 11 = true := by decide
  rw [nonblock_eq, BitVec.getLsbD_or, hbit, Bool.or_true]

@[simp] theorem nonblock_and_not (flags : BitVec 32) :
    nonblock (flags &&& ~~~O_NONBLOCK) = false := by
  have hbit : (~~~O_NONBLOCK).getLsbD 11 = false := by decide
  rw [nonblock_eq, BitVec.getLsbD_and, hbit, Bool.and_false]

/-- `F_SETFL` takes `O_NONBLOCK` from its argument. -/
@[simp] theorem nonblock_fcntlF (flags arg : BitVec 32) :
    nonblock (fcntlF flags arg) = nonblock arg := by
  have hbit : SETFL_MASK.getLsbD 11 = true := by decide
  have hbit' : (~~~SETFL_MASK).getLsbD 11 = false := by decide
  rw [nonblock_eq, nonblock_eq, fcntlF, BitVec.getLsbD_or, BitVec.getLsbD_and, BitVec.getLsbD_and,
    hbit, hbit', Bool.and_false, Bool.false_or, Bool.and_true]

@[simp] theorem nonblock_ioctlF (flags v : BitVec 32) :
    nonblock (ioctlF flags v) = (v != 0#32) := by
  unfold ioctlF
  split_ifs with hv
  · rw [nonblock_and_not, hv]
    rfl
  · rw [nonblock_or]
    exact (bne_iff_ne.mpr hv).symm

/-! ### The descriptor -/

/-- The entry of the descriptor in the `FdManager`, and its status flags in the kernel. -/
structure Descriptor where
  ctx : Option FdCtx
  flags : BitVec 32
  deriving DecidableEq

namespace Descriptor

/-- A new `FdCtx` for a descriptor with these flags. -/
def init (stat : Option Bool) (flags : BitVec 32) : Descriptor :=
  let ctx := FdCtx.init stat
  { ctx := some ctx
    flags :=
      if ctx.m_isSocket && !nonblock flags then fcntlF flags (flags ||| O_NONBLOCK) else flags }

/-- The context, when the hooked functions look at it. -/
def hooked (s : Descriptor) : Option FdCtx :=
  s.ctx.filter fun ctx => !ctx.m_isClosed && ctx.m_isSocket

def setUserNonblock (s : Descriptor) (ctx : FdCtx) (v : Bool) : Descriptor :=
  { s with ctx := some { ctx with m_userNonblock := v } }

/-- The system call has this effect on the flags, unless it fails. -/
def system (s : Descriptor) (effect : BitVec 32 → BitVec 32) (fails : Bool) : Descriptor × ℤ :=
  if fails then (s, -1) else ({ s with flags := effect s.flags }, 0)

/-- `fcntl(fd, F_SETFL, arg)` -/
def setfl (s : Descriptor) (arg : BitVec 32) (fails : Bool) : Descriptor × ℤ :=
  match s.hooked with
  | none => s.system (fcntlF · arg) fails
  | some ctx =>
    let arg' := if ctx.m_sysNonblock then arg ||| O_NONBLOCK else arg &&& ~~~O_NONBLOCK
    (s.setUserNonblock ctx (nonblock arg)).system (fcntlF · arg') fails

/-- `fcntl(fd, F_GETFL)` -/
def getfl (s : Descriptor) : BitVec 32 :=
  match s.hooked with
  | none => s.flags
  | some ctx => if ctx.m_userNonblock then s.flags ||| O_NONBLOCK else s.flags &&& ~~~O_NONBLOCK

/-- `ioctl(fd, FIONBIO, &v)` -/
def ioctl (s : Descriptor) (v : BitVec 32) (fails : Bool) : Descriptor × ℤ :=
  match s.hooked with
  | none => s.system (ioctlF · v) fails
  | some ctx => (s.setUserNonblock ctx (v != 0#32)).system (ioctlF · v) fails

/-! ### Histories of calls -/

/-- A call of the user, and whether the system call in it fails. -/
inductive Request
  | setfl (arg : BitVec 32) (fails : Bool)
  | ioctl (v : BitVec 32) (fails : Bool)

namespace Request

/-- Whether the user asks for a nonblocking descriptor. -/
def wish : Request → Bool
  | setfl arg _ => nonblock arg
  | ioctl v _ => v != 0#32

/-- A successful `FIONBIO` that asks for a blocking descriptor. -/
def Clears (r : Request) : Prop := r = ioctl 0#32 false

end Request

def request (s : Descriptor) : Request → Descriptor
  | .setfl arg fails => (s.setfl arg fails).1
  | .ioctl v fails => (s.ioctl v fails).1

def requests (s : Descriptor) (rs : List Request) : Descriptor := rs.foldl request s

/-- What the user asked for last. -/
def asked (wish : Bool) (rs : List Request) : Bool := rs.foldl (fun _ r => r.wish) wish

/-- The socket is nonblocking in the kernel, and the user is told what the user asked for. -/
structure Faithful (s : Descriptor) (wish : Bool) : Prop where
  kernel : nonblock s.flags = true
  user : ∃ ctx, s.ctx = some ctx ∧ ctx.m_userNonblock = wish
  getfl : nonblock s.getfl = wish

/-- A socket that is tracked, with what the user asked for. -/
def tracked (wish : Bool) (flags : BitVec 32) : Descriptor :=
  { ctx := some { FdCtx.init (some true) with m_userNonblock := wish }
    flags := flags }

variable {wish : Bool} {flags : BitVec 32}

theorem init_eq (flags : BitVec 32) :
    ∃ flags', init (some true) flags = tracked false flags' ∧ nonblock flags' = true := by
  refine ⟨_, rfl, ?_⟩
  cases h : nonblock flags with
  | true => exact h
  | false => exact (nonblock_fcntlF flags _).trans (nonblock_or flags)

/-- What the user sees does not depend on the flag in the kernel. -/
theorem faithful_tracked_iff : Faithful (tracked wish flags) wish ↔ nonblock flags = true := by
  refine ⟨Faithful.kernel, fun h => ⟨h, ⟨_, rfl, rfl⟩, ?_⟩⟩
  show nonblock (if wish = true then flags ||| O_NONBLOCK else flags &&& ~~~O_NONBLOCK) = wish
  cases wish with
  | true => exact nonblock_or flags
  | false => exact nonblock_and_not flags

/-- **Step lemma.** A socket stays tracked, and its flag in the kernel is cleared exactly by a
successful `FIONBIO` with 0. -/
theorem request_tracked (h : nonblock flags = true) (r : Request) :
    ∃ flags', (tracked wish flags).request r = tracked r.wish flags' ∧
      (nonblock flags' = true ↔ ¬ r.Clears) := by
  cases r with
  | setfl arg fails =>
    have hkeep : ¬ (Request.setfl arg fails).Clears := nofun
    cases fails with
    | true => exact ⟨flags, rfl, iff_of_true h hkeep⟩
    | false =>
      -- the hooked `fcntl` has put the flag back
      refine ⟨fcntlF flags (arg ||| O_NONBLOCK), rfl, iff_of_true ?_ hkeep⟩
      rw [nonblock_fcntlF, nonblock_or]
  | ioctl v fails =>
    cases fails with
    | true => exact ⟨flags, rfl, iff_of_true h nofun⟩
    | false =>
      -- the hooked `ioctl` has not, so the value decides
      refine ⟨ioctlF flags v, rfl, ?_⟩
      rw [nonblock_ioctlF, bne_iff_ne, Request.Clears, Request.ioctl.injEq]
      simp only [and_true, ne_eq]

theorem faithful_requests_iff (rs : List Request) (h : nonblock flags = true) :
    (∀ pre, pre <+: rs → Faithful ((tracked wish flags).requests pre) (asked wish pre)) ↔
      ∀ r ∈ rs, ¬ r.Clears := by
  induction rs generalizing wish flags with
  | nil =>
    refine iff_of_true (fun pre hpre => ?_) nofun
    rw [List.prefix_nil.mp hpre]
    exact faithful_tracked_iff.mpr h
  | cons r rs ih =>
    obtain ⟨flags', hrequest, hflags'⟩ := @request_tracked wish flags h r
    have hrest : ∀ pre, (tracked wish flags).requests (r :: pre) =
        (tracked r.wish flags').requests pre := by
      intro pre
      rw [← hrequest]
      rfl
    rw [List.forall_mem_cons]
    constructor
    · intro hall
      -- the flag after the first request
      have hfirst := hall [r] (List.prefix_cons_iff.mpr (.inr ⟨[], rfl, List.nil_prefix⟩))
      rw [hrest] at hfirst
      have hkernel : nonblock flags' = true := faithful_tracked_iff.mp hfirst
      refine ⟨hflags'.mp hkernel, (@ih r.wish flags' hkernel).mp fun pre hpre => ?_⟩
      rw [← hrest]
      exact hall (r :: pre) (List.prefix_cons_iff.mpr (.inr ⟨pre, rfl, hpre⟩))
    · rintro ⟨hr, hrs⟩ pre hpre
      rcases List.prefix_cons_iff.mp hpre with rfl | ⟨pre', rfl, hpre'⟩
      · exact faithful_tracked_iff.mpr h
      · rw [hrest]
        exact (ih (hflags'.mpr hr)).mpr hrs pre' hpre'

/-- After every request the socket is nonblocking in the kernel and the user is told what the user
asked for, exactly when no `FIONBIO` with 0 succeeds. -/
theorem faithful_iff (flags : BitVec 32) (rs : List Request) :
    (∀ pre, pre <+: rs →
        Faithful ((init (some true) flags).requests pre) (asked false pre)) ↔
      ∀ r ∈ rs, ¬ r.Clears := by
  obtain ⟨flags', hinit, hflags'⟩ := init_eq flags
  rw [hinit]
  exact faithful_requests_iff rs hflags'

/-- A socket that the user makes blocking again with `FIONBIO` is blocking in the kernel. -/
theorem not_faithful_fionbio :
    ¬ Faithful ((init (some true) 2#32).requests [.ioctl 1#32 false, .ioctl 0#32 false])
      (asked false [.ioctl 1#32 false, .ioctl 0#32 false]) := by
  intro h
  have hkernel := h.kernel
  revert hkernel
  decide

end Descriptor

end Muhui.Descriptors
