/-
  The bookkeeping of registered events.

  Four records of the same thing are kept: the bits of each context, the waiters in its event
  contexts, `m_pendingEventCount`, and the interest masks of the kernel.  The first three agree in
  every run (`FdContext.Consistent`, `Sound`).  `Balanced` says that the kernel agrees with the
  contexts.  Every section keeps it in step because it commits to one context (`Commits`), but
  this needs the table to be in order: if a second context exists for a descriptor, its bits no
  longer say what the kernel has registered.
-/
import Muhui.IOManager.Table

namespace Muhui

/-! ### The kernel's registrations -/

/-- What the kernel should know about a descriptor. -/
def registration (m : Events) (ptr : ℕ) : Option (Events × ℕ) :=
  if m = .NONE then none else some (m, ptr)

/-- `EPOLL_CTL_ADD` for a descriptor that is not registered, the others for one that is. -/
def CallFits (call : EpollCtlOp × Bool) : Prop := call.1 = .ADD ↔ call.2 = false

theorem isSome_registration {m : Events} {ptr : ℕ} :
    (registration m ptr).isSome = true ↔ m ≠ .NONE := by
  rw [registration]
  split_ifs with h <;> simp [h]

section Ctl

variable {ep : Epoll} {op : EpollCtlOp} {m n : Events} {fd ptr : ℕ} {fails : Bool}

theorem ctl_calls (hfits : op.Fits m n) (hreg : ep.interest fd = registration m ptr)
    (h : ∀ call ∈ ep.calls, CallFits call) :
    ∀ call ∈ (ep.ctl op fd n ptr fails).2.calls, CallFits call := by
  have hcalls : (ep.ctl op fd n ptr fails).2.calls = (op, (ep.interest fd).isSome) :: ep.calls := by
    unfold Epoll.ctl
    cases fails <;> cases op <;> cases (ep.interest fd).isSome <;> rfl
  have hsome : (ep.interest fd).isSome = true ↔ m ≠ .NONE := by rw [hreg, isSome_registration]
  rw [hcalls]
  rintro call (_ | ⟨_, hcall⟩)
  · rw [CallFits, ← Bool.not_eq_true, hsome, not_not]
    cases op with
    | ADD => exact iff_of_true rfl hfits.1
    | MOD | DEL => exact iff_of_false (by simp) hfits.1
  · exact h call hcall

theorem ctl_interest (hfits : op.Fits m n) (hctl : (ep.ctl op fd n ptr fails).1 = true) :
    (ep.ctl op fd n ptr fails).2.interest =
      Function.update ep.interest fd (registration n ptr) := by
  unfold Epoll.ctl at hctl ⊢
  cases op with
  | ADD | MOD =>
    rw [registration, if_neg hfits.2]
    cases fails <;> cases hreg : (ep.interest fd).isSome <;> simp_all
  | DEL =>
    rw [registration, if_pos hfits.2]
    cases fails <;> cases hreg : (ep.interest fd).isSome <;> simp_all

end Ctl

namespace IOManager

variable {io io' : IOManager} {fd size : ℕ} {fails b : Bool}

/-- The kernel agrees with the bits of the contexts. -/
structure Balanced (io : IOManager) : Prop where
  kernel : ∀ fd, io.epoll.interest fd =
    if fd < io.created then registration (io.mem fd).events fd else none
  calls : ∀ call ∈ io.epoll.calls, CallFits call

/-- **A section keeps the balance.** -/
theorem Balanced.commits {effect : FdContext.Effect} (h : io.Balanced) (hfd : fd < io.created)
    (hcommits : Commits io fd fd effect fails b io') : io'.Balanced := by
  rcases hcommits with ⟨-, rfl⟩ | ⟨op, c, tasks, -, hfits, hctl, rfl⟩
  · exact h
  have hreg : io.epoll.interest fd = registration (io.mem fd).events fd := by
    rw [h.kernel, if_pos hfd]
  have hcalls := @ctl_calls _ _ _ c.events _ _ fails hfits hreg h.calls
  cases b
  · refine ⟨fun q => ?_, hcalls⟩
    rw [if_neg Bool.false_ne_true, ctl_interest_of_fails hctl]
    exact h.kernel q
  · refine ⟨fun q => ?_, hcalls⟩
    rw [if_pos rfl, ctl_interest hfits hctl]
    by_cases hq : q = fd
    · subst hq
      simp [put, hfd]
    · simp [put, Function.update_of_ne hq, h.kernel q]

/-- A resize that does not ask for less keeps the balance: the new contexts have no events. -/
theorem Balanced.contextResize (h : io.Balanced) (htabled : io.Tabled)
    (hsize : io.created ≤ size) : (io.contextResize size).Balanced := by
  obtain ⟨-, hcreated, hold, hnew⟩ := contextResize_eq htabled.fdContexts hsize
  have hpast : ∀ p, io.created ≤ p → p < size →
      ((io.contextResize size).mem p).events = .NONE := fun p hp hp' => by
    rw [hnew p hp hp']
    rfl
  refine ⟨fun fd => ?_, h.calls⟩
  have hkernel : (io.contextResize size).epoll.interest fd = io.epoll.interest fd := rfl
  rw [hkernel, h.kernel, hcreated]
  by_cases hfd : fd < io.created
  · rw [if_pos hfd, if_pos (by omega), hold fd hfd]
  · rw [if_neg hfd]
    split_ifs with hlt
    · rw [hpast fd (by omega) hlt, registration, if_pos rfl]
    · rfl

theorem new_balanced : new.Balanced where
  kernel fd := by
    have hevents : (new.mem fd).events = .NONE := by
      obtain ⟨fd', hnew⟩ := new_mem fd
      rw [hnew]
      rfl
    rw [hevents, registration, if_pos rfl, ite_self]
    rfl
  calls call hcall := absurd hcall List.not_mem_nil

namespace System

variable {s s' : System} {a : Step}

/-- No resize asks for less than the table has, and a descriptor is closed only when `cancelAll`
has taken it out of epoll. -/
def Tidy (s : System) : Step → Prop
  | .close fd => s.io.epoll.interest fd = none
  | a => Grows s a

theorem Tidy.grows (h : Tidy s a) : Grows s a := by
  cases a with
  | close fd => trivial
  | call | grow | critical | wait | handle => exact h

structure BookInv (s : System) : Prop where
  sound : s.Sound
  table : s.TableInv
  balanced : s.io.Balanced

/-- **Step lemma.** -/
theorem BookInv.next (h : s.BookInv) (htidy : Tidy s a) (hnext : s.next a = some s') :
    s'.BookInv := by
  have hsound := h.sound.next hnext
  have htable := (h.table.next htidy.grows hnext).1
  have hresize {t fd : ℕ} {c : Call} (hgrows : Grows s (.grow t)) (hpc : s.pc t = .growing fd c) :
      (s.io.contextResize (growTarget fd)).Balanced := by
    have hsize := hgrows fd c hpc
    rw [h.table.tabled.length] at hsize
    exact h.balanced.contextResize h.table.tabled hsize
  obtain ⟨-, hnext⟩ := Next.of_next hnext
  refine ⟨hsound, htable, ?_⟩
  cases hnext with
  | grown t fd c ctx hpc hctx => exact hresize htidy.grows hpc
  | outOfBounds t fd c hpc hctx => exact hresize htidy.grows hpc
  | returned t ctx fd c fails b io hpc hrun =>
    have hholding := h.table.pc t
    rw [hpc] at hholding
    obtain ⟨rfl, hfd⟩ := hholding
    exact h.balanced.commits hfd (Call.run_commits h.table.consistent hrun)
  | handled t event events fails io hpc hrun =>
    have hpolling := h.sound.pc t
    rw [hpc] at hpolling
    have hptr := hpolling event List.mem_cons_self
    obtain ⟨-, b, hcommits⟩ := handleEvent_ok h.table.consistent hrun
    rw [h.table.tabled.fd event.ptr hptr] at hcommits
    exact h.balanced.commits hptr hcommits
  | closed fd =>
    have hupdate : Function.update s.io.epoll.interest fd none = s.io.epoll.interest := by
      rw [← (htidy : s.io.epoll.interest fd = none), Function.update_eq_self]
    refine ⟨fun q => ?_, h.balanced.calls⟩
    exact (congrFun hupdate q).trans (h.balanced.kernel q)
  | found | missing | refused | asserted | waited | finished | failed => exact h.balanced

theorem bookInv_init : init.BookInv := ⟨sound_init, tableInv_init, new_balanced⟩

/-- **Run lemma.** -/
theorem bookInv_of_run {as : List Step} (htidy : Transition.StepsMeet next Tidy init as)
    (hrun : Transition.run next init as = some s) : s.BookInv :=
  Transition.invariant_of_stepsMeet BookInv (fun _ _ _ h hok hnext => h.next hok hnext)
    bookInv_init htidy hrun

/-- **The records agree** in every state of a run in which no resize asks for less than the table
has and only descriptors that are out of epoll are closed: a bit is set exactly when somebody
waits, the counter is the number of bits, the kernel's mask is the context's, `EPOLL_CTL_ADD`
has only been issued for descriptors that were not registered and the other operations for those
that were.  A call that reports failure changes none of this. -/
theorem bookkeeping_of_run {as : List Step} (htidy : Transition.StepsMeet next Tidy init as)
    (hrun : Transition.run next init as = some s) :
    (∀ p < s.io.created, ∀ e,
      (s.io.mem p).events.test e = true ↔ ((s.io.mem p).getContext e).Armed) ∧
    s.io.pendingEventCount = ∑ p ∈ Finset.range s.io.created, (s.io.mem p).events.count ∧
    (∀ p < s.io.created, s.io.epoll.interest (s.io.mem p).fd =
      if (s.io.mem p).events = .NONE then none else some ((s.io.mem p).events, p)) ∧
    (∀ call ∈ s.io.epoll.calls, call.1 = .ADD ↔ call.2 = false) ∧
    ∀ (c : Call) ctx fd fails io, c.run s.io ctx fd fails = .ok (false, io) →
      io.mem = s.io.mem ∧ io.pendingEventCount = s.io.pendingEventCount ∧
        io.epoll.interest = s.io.epoll.interest := by
  have h := bookInv_of_run htidy hrun
  refine ⟨fun p _ e => ?_, h.sound.io.count, fun p hp => ?_, h.balanced.calls,
    fun c ctx fd fails io hc => (Call.run_commits h.table.consistent hc).of_fails⟩
  · have hcons := h.table.consistent p e
    split_ifs at hcons with htest
    · exact iff_of_true htest hcons
    · rw [hcons]
      exact iff_of_false htest EventContext.not_armed_empty
  · rw [h.table.tabled.fd p hp, h.balanced.kernel, if_pos hp, registration]

/-- A descriptor that is registered, cancelled and closed. -/
def wellClosed : List Step :=
  [.call 0 40 (.addEvent .READ none 0 1), .grow 0, .critical 0 false, .call 0 40 .cancelAll,
    .critical 0 false, .close 40]

theorem bookkeeping_of_run_wellClosed :
    ∃ s, Transition.run next init wellClosed = some s ∧
      s.io.pendingEventCount = ∑ p ∈ Finset.range s.io.created, (s.io.mem p).events.count := by
  refine ⟨_, rfl, (@bookkeeping_of_run _ wellClosed ?_ rfl).2.1⟩
  refine .cons rfl trivial (.cons rfl ?_ (.cons rfl trivial (.cons rfl trivial (.cons rfl trivial
    (.cons rfl rfl trivial)))))
  intro fd c hpc
  obtain ⟨rfl, -⟩ := Pc.growing.inj hpc
  decide

/-- After the table has shrunk under descriptor 48 and grown again, a second context exists for it
that knows of no event, though the kernel has the read event registered; a further `addEvent`
issues `EPOLL_CTL_ADD` for the registered descriptor. -/
theorem bookkeeping_lost :
    ∃ s, Transition.run next init
        (twoGrowers ++ [.grow 0, .call 1 48 (.addEvent .WRITE none 0 2), .grow 1,
          .critical 1 false]) = some s ∧
      s.aborted = none ∧ s.io.created = 96 ∧ (s.io.mem 72).fd = 48 ∧
      (s.io.mem 72).events = .NONE ∧ s.io.epoll.interest 48 = some (⟨true, false⟩, 48) ∧
      s.io.epoll.calls.head? = some (.ADD, true) :=
  ⟨_, rfl, rfl, rfl, rfl, rfl, rfl, rfl⟩

end System

end IOManager

end Muhui
