/-
  The timeouts of a socket (`socket.cc`, `hook.cc`, `fd_manager.cc`).

  `setRecvTimeout` and `setSendTimeout` cut the milliseconds into seconds and microseconds, each an
  `int`, and `setsockopt` puts them together for the context of the descriptor.  The context keeps
  the two directions apart, and what comes back is the number of milliseconds when its seconds are
  an `int` (`milliseconds_timeval_iff`).
-/
import Muhui.Descriptors.Contexts
import Muhui.Descriptors.FdCtx
import Muhui.Encoding.Signed

namespace Muhui.Descriptors

/-! ### The calls -/

def SOL_SOCKET : ℤ := 1

/-- `timeval`, of two `int64_t`. -/
structure Timeval where
  tv_sec : ℤ
  tv_usec : ℤ
  deriving DecidableEq

/-- `timeval{int(v / 1000), int(v % 1000 * 1000)}` -/
def timeval (v : ℤ) : Timeval where
  tv_sec := signed 32 (v.tdiv 1000)
  tv_usec := signed 32 (v.tmod 1000 * 1000)

/-- `v->tv_sec * 1000 + v->tv_usec / 1000` -/
def Timeval.milliseconds (v : Timeval) : ℤ := signed 64 (v.tv_sec * 1000 + v.tv_usec.tdiv 1000)

/-- `FdMgr`, its contexts, and `t_hook_enable` of the calling thread. -/
structure Process where
  manager : FdManager
  ctx : ℕ → FdCtx
  hook_enable : Bool

namespace Process

section Calls

-- what the system call returns
variable (setsockopt_f : ℤ → ℤ → ℤ → Timeval → ℤ)

/-- The hooked `setsockopt`, of an option whose value is a `timeval`; `none` is an access outside
the vector of contexts. -/
def setsockopt (sockfd level optname : ℤ) (optval : Timeval) (p : Process) :
    Option (Process × ℤ) :=
  let rt := setsockopt_f sockfd level optname optval
  if p.hook_enable ∧ level = SOL_SOCKET ∧ (optname = SO_RCVTIMEO ∨ optname = SO_SNDTIMEO) then
    (p.manager.get sockfd false).map fun
      | (manager, none) => ({ p with manager := manager }, rt)
      | (manager, some ctx) =>
        ({ p with
            manager := manager
            ctx := Function.update p.ctx ctx
              ((p.ctx ctx).setTimeout optname (unsigned 64 optval.milliseconds)) }, rt)
  else some (p, rt)

/-- `Socket::setOption(level, option, value)` of the socket `m_sock`. -/
def setOption (m_sock level option : ℤ) (value : Timeval) (p : Process) :
    Option (Process × Bool) :=
  (p.setsockopt setsockopt_f m_sock level option value).map fun r => (r.1, r.2 == 0)

/-- `Socket::setSendTimeout(v)` -/
def setSendTimeout (m_sock v : ℤ) (p : Process) : Option Process :=
  (p.setOption setsockopt_f m_sock SOL_SOCKET SO_SNDTIMEO (timeval v)).map Prod.fst

/-- `Socket::setRecvTimeout(v)` -/
def setRecvTimeout (m_sock v : ℤ) (p : Process) : Option Process :=
  (p.setOption setsockopt_f m_sock SOL_SOCKET SO_RCVTIMEO (timeval v)).map Prod.fst

end Calls

/-- Both getters; an `int64_t` is returned. -/
def getTimeout (type m_sock : ℤ) (p : Process) : Option ℤ :=
  (p.manager.get m_sock false).map fun
    | (_, some ctx) => signed 64 ((p.ctx ctx).getTimeout type)
    | (_, none) => -1

/-- `Socket::getSendTimeout()` -/
def getSendTimeout (m_sock : ℤ) (p : Process) : Option ℤ := p.getTimeout SO_SNDTIMEO m_sock

/-- `Socket::getRecvTimeout()` -/
def getRecvTimeout (m_sock : ℤ) (p : Process) : Option ℤ := p.getTimeout SO_RCVTIMEO m_sock

/-- A context of `FdMgr` belongs to the socket. -/
def Tracked (p : Process) (m_sock : ℤ) (ctx : ℕ) : Prop :=
  p.manager.get m_sock false = some (p.manager, some ctx)

/-- What the timeouts promise: each direction is read back as it was set, and the other one as
before. -/
structure Faithful (setsockopt_f : ℤ → ℤ → ℤ → Timeval → ℤ) (p : Process) (m_sock v : ℤ) :
    Prop where
  recv : (p.setRecvTimeout setsockopt_f m_sock v).bind (getRecvTimeout m_sock) = some v
  send : (p.setSendTimeout setsockopt_f m_sock v).bind (getSendTimeout m_sock) = some v
  recv_send : (p.setRecvTimeout setsockopt_f m_sock v).bind (getSendTimeout m_sock) =
    p.getSendTimeout m_sock
  send_recv : (p.setSendTimeout setsockopt_f m_sock v).bind (getRecvTimeout m_sock) =
    p.getRecvTimeout m_sock

end Process

/-! ### The value -/

variable {v : ℤ}

/-- The seconds that are left of the value. -/
theorem signed_seconds_iff (h0 : 0 ≤ v) :
    signed 32 (v / 1000) = v / 1000 ↔ v < 2 ^ 31 * 1000 := by
  rw [signed_eq_iff (by decide)]
  omega

theorem milliseconds_timeval (h0 : 0 ≤ v) :
    (timeval v).milliseconds = signed 32 (v / 1000) * 1000 + v % 1000 := by
  have husec : signed 32 (v.tmod 1000 * 1000) = v % 1000 * 1000 := by
    rw [Int.tmod_eq_emod_of_nonneg h0, signed_eq_iff (by decide)]
    omega
  have hsec := @signed_bounds 32 (v / 1000) (by decide)
  have hms : (v % 1000 * 1000).tdiv 1000 = v % 1000 := Int.mul_tdiv_cancel _ (by decide)
  show signed 64 (signed 32 (v.tdiv 1000) * 1000 + (signed 32 (v.tmod 1000 * 1000)).tdiv 1000) = _
  rw [husec, hms, Int.tdiv_eq_ediv_of_nonneg h0, signed_eq_iff (by decide)]
  omega

theorem milliseconds_timeval_iff (h0 : 0 ≤ v) :
    (timeval v).milliseconds = v ↔ v < 2 ^ 31 * 1000 := by
  rw [milliseconds_timeval h0, ← signed_seconds_iff h0]
  omega

/-- The number comes out of a `uint64_t` as it went in. -/
theorem signed_unsigned_milliseconds (t : Timeval) :
    signed 64 (unsigned 64 t.milliseconds) = t.milliseconds := by
  rw [signed_unsigned]
  exact Int.bmod_bmod

/-! ### The socket -/

namespace Process

variable {setsockopt_f : ℤ → ℤ → ℤ → Timeval → ℤ} {p : Process} {m_sock type type' : ℤ} {ctx : ℕ}

/-- The process in which a timeout of a context is set. -/
def stored (p : Process) (ctx : ℕ) (type v : ℤ) : Process :=
  { p with
    ctx := Function.update p.ctx ctx
      ((p.ctx ctx).setTimeout type (unsigned 64 (timeval v).milliseconds)) }

theorem setOption_eq (hhook : p.hook_enable = true) (h : p.Tracked m_sock ctx)
    (htype : type = SO_RCVTIMEO ∨ type = SO_SNDTIMEO) :
    (p.setOption setsockopt_f m_sock SOL_SOCKET type (timeval v)).map Prod.fst =
      some (p.stored ctx type v) := by
  unfold setOption setsockopt
  rw [if_pos ⟨hhook, rfl, htype⟩, h]
  rfl

theorem getTimeout_eq (h : p.Tracked m_sock ctx) (type : ℤ) :
    p.getTimeout type m_sock = some (signed 64 ((p.ctx ctx).getTimeout type)) := by
  unfold getTimeout
  rw [h]
  rfl

/-- A context in the vector belongs to the socket of its place. -/
theorem tracked_of_entry (hm : p.manager.Sized) (h0 : 0 ≤ m_sock)
    (hentry : p.manager.entry m_sock = some ctx) : p.Tracked m_sock ctx := by
  have hsize : m_sock ≠ p.manager.datas.length := by
    intro heq
    rw [FdManager.entry_of_le heq.ge] at hentry
    cases hentry
  unfold Tracked FdManager.get
  rw [FdManager.lookup_eq hm h0 hsize, hentry]
  rfl

theorem Tracked.stored (h : p.Tracked m_sock ctx) (type v : ℤ) :
    (p.stored ctx type v).Tracked m_sock ctx := h

theorem getTimeout_stored (h : p.Tracked m_sock ctx) (type v : ℤ) :
    (p.stored ctx type v).getTimeout type m_sock = some (timeval v).milliseconds := by
  rw [getTimeout_eq (h.stored type v)]
  simp [Process.stored, signed_unsigned_milliseconds]

theorem getTimeout_stored_other (h : p.Tracked m_sock ctx)
    (hother : type = SO_RCVTIMEO ↔ type' ≠ SO_RCVTIMEO) (v : ℤ) :
    (p.stored ctx type v).getTimeout type' m_sock = p.getTimeout type' m_sock := by
  rw [getTimeout_eq (h.stored type v), getTimeout_eq h]
  simp [Process.stored, FdCtx.getTimeout_setTimeout_other hother]

theorem setRecvTimeout_eq (hhook : p.hook_enable = true) (h : p.Tracked m_sock ctx) (v : ℤ) :
    p.setRecvTimeout setsockopt_f m_sock v = some (p.stored ctx SO_RCVTIMEO v) :=
  setOption_eq hhook h (.inl rfl)

theorem setSendTimeout_eq (hhook : p.hook_enable = true) (h : p.Tracked m_sock ctx) (v : ℤ) :
    p.setSendTimeout setsockopt_f m_sock v = some (p.stored ctx SO_SNDTIMEO v) :=
  setOption_eq hhook h (.inr rfl)

theorem getRecvTimeout_setRecvTimeout (setsockopt_f : ℤ → ℤ → ℤ → Timeval → ℤ)
    (hhook : p.hook_enable = true) (h : p.Tracked m_sock ctx) (v : ℤ) :
    (p.setRecvTimeout setsockopt_f m_sock v).bind (getRecvTimeout m_sock) =
      some (timeval v).milliseconds := by
  rw [setRecvTimeout_eq hhook h]
  exact getTimeout_stored h SO_RCVTIMEO v

theorem getSendTimeout_setSendTimeout (setsockopt_f : ℤ → ℤ → ℤ → Timeval → ℤ)
    (hhook : p.hook_enable = true) (h : p.Tracked m_sock ctx) (v : ℤ) :
    (p.setSendTimeout setsockopt_f m_sock v).bind (getSendTimeout m_sock) =
      some (timeval v).milliseconds := by
  rw [setSendTimeout_eq hhook h]
  exact getTimeout_stored h SO_SNDTIMEO v

/-- Setting one direction never changes the other, whatever the value is. -/
theorem getSendTimeout_setRecvTimeout (setsockopt_f : ℤ → ℤ → ℤ → Timeval → ℤ)
    (hhook : p.hook_enable = true) (h : p.Tracked m_sock ctx) (v : ℤ) :
    (p.setRecvTimeout setsockopt_f m_sock v).bind (getSendTimeout m_sock) =
      p.getSendTimeout m_sock := by
  rw [setRecvTimeout_eq hhook h]
  exact getTimeout_stored_other h (by decide) v

theorem getRecvTimeout_setSendTimeout (setsockopt_f : ℤ → ℤ → ℤ → Timeval → ℤ)
    (hhook : p.hook_enable = true) (h : p.Tracked m_sock ctx) (v : ℤ) :
    (p.setSendTimeout setsockopt_f m_sock v).bind (getRecvTimeout m_sock) =
      p.getRecvTimeout m_sock := by
  rw [setSendTimeout_eq hhook h]
  exact getTimeout_stored_other h (by decide) v

/-- What is read back is the number that the `timeval` stands for. -/
theorem faithful_iff_milliseconds (setsockopt_f : ℤ → ℤ → ℤ → Timeval → ℤ)
    (hhook : p.hook_enable = true) (h : p.Tracked m_sock ctx) (v : ℤ) :
    Faithful setsockopt_f p m_sock v ↔ (timeval v).milliseconds = v := by
  have hrecv := getRecvTimeout_setRecvTimeout setsockopt_f hhook h v
  have hsend := getSendTimeout_setSendTimeout setsockopt_f hhook h v
  constructor
  · intro hfaithful
    exact Option.some.inj (hrecv.symm.trans hfaithful.recv)
  · intro heq
    rw [heq] at hrecv hsend
    exact ⟨hrecv, hsend, getSendTimeout_setRecvTimeout setsockopt_f hhook h v,
      getRecvTimeout_setSendTimeout setsockopt_f hhook h v⟩

/-- **Timeouts.** Both timeouts of a tracked socket are read back as they were set, each without a
change of the other, exactly when the value has fewer than `2 ^ 31` seconds. -/
theorem timeouts_faithful_iff (setsockopt_f : ℤ → ℤ → ℤ → Timeval → ℤ)
    (hhook : p.hook_enable = true) (h : p.Tracked m_sock ctx) (h0 : 0 ≤ v) :
    Faithful setsockopt_f p m_sock v ↔ v < 2147483648000 := by
  rw [faithful_iff_milliseconds setsockopt_f hhook h, milliseconds_timeval_iff h0]
  omega

/-- A process with a context for descriptor 5. -/
def five : Process where
  manager := { datas := FdManager.init.datas.set 5 (some 0), made := 1 }
  ctx _ := .init (some true)
  hook_enable := true

theorem tracked_five : five.Tracked 5 0 :=
  tracked_of_entry ⟨by decide, by decide⟩ (by decide) (by decide)

theorem timeouts_faithful_iff_five :
    Faithful (fun _ _ _ _ => 0) five 5 3000 ↔ (3000 : ℤ) < 2147483648000 :=
  timeouts_faithful_iff _ rfl tracked_five (by decide)

/-- `2 ^ 31` seconds are read back as a negative number. -/
theorem not_faithful_of_wrap :
    (five.setRecvTimeout (fun _ _ _ _ => 0) 5 2147483648000).bind (getRecvTimeout 5) =
        some (-2147483648000) ∧
      ¬ Faithful (fun _ _ _ _ => 0) five 5 2147483648000 := by
  have hrecv : (five.setRecvTimeout (fun _ _ _ _ => 0) 5 2147483648000).bind (getRecvTimeout 5) =
      some (-2147483648000) := by
    have hms : (timeval 2147483648000).milliseconds = -2147483648000 := by decide +kernel
    rw [getRecvTimeout_setRecvTimeout _ rfl tracked_five, hms]
  refine ⟨hrecv, ?_⟩
  intro hfaithful
  have := hrecv.symm.trans hfaithful.recv
  simp at this

end Process

end Muhui.Descriptors
