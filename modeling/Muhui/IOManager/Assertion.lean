/-
  When the assertion of `triggerEvent` can fail.

  The event loop decides on the bits of the record as they were when `epoll_wait` returned.  It
  skips a record none of whose bits is registered any more, but it then triggers every bit of the
  record, so a record of which only one bit has been cancelled in between fails the assertion.
  `triggerEvent_of_run` is the exact condition: the assertion holds throughout a run exactly when
  each record the loop handles names only registered events or none (or the loop gives up at
  `epoll_ctl`); everything else that calls `triggerEvent` is safe.
-/
import Muhui.IOManager.System

namespace Muhui.IOManager

/-- Every context that has been or will be created is consistent. -/
def Consistent (io : IOManager) : Prop := ∀ p, (io.mem p).Consistent

variable {io io' : IOManager} {ctx fd : ℕ} {fails b : Bool}

theorem Commits.consistent {effect : FdContext.Effect} (h : Commits io ctx fd effect fails b io')
    (hc : io.Consistent) : io'.Consistent := by
  obtain ⟨-, -, ⟨hmem, -⟩ | ⟨c, tasks, hleaves, hmem, -⟩⟩ := h.writes
  · rwa [Consistent, hmem]
  · intro p
    rw [hmem]
    by_cases hp : p = ctx
    · subst hp
      rw [Function.update_self]
      exact hleaves.consistent
    · rw [Function.update_of_ne hp]
      exact hc p

theorem contextResize_consistent (hc : io.Consistent) (size : ℕ) :
    (io.contextResize size).Consistent := by
  intro p
  simp only [contextResize]
  split_ifs
  · exact FdContext.Consistent.new _
  · exact hc p

theorem new_consistent : new.Consistent :=
  contextResize_consistent (fun _ => FdContext.Consistent.new 0) 32

/-- What a call is for. -/
def Call.effect : Call → FdContext.Effect
  | addEvent event cb scheduler fiber => .adds event (.waiting (some scheduler) fiber cb)
  | delEvent _ => .drops
  | cancelEvent _ | cancelAll => .wakes

/-- **A call that returns** has done one step of the bookkeeping. -/
theorem Call.run_commits {c : Call} (hc : io.Consistent)
    (h : c.run io ctx fd fails = .ok (b, io')) : Commits io ctx fd c.effect fails b io' := by
  cases c with
  | addEvent event cb scheduler fiber => exact addEvent_commits (hc ctx) h
  | delEvent event => exact delEvent_commits (hc ctx) (Except.ok.inj h)
  | cancelEvent event =>
    obtain ⟨b₁, io₁, hrun, hcommits⟩ := cancelEvent_commits (hc ctx)
    obtain ⟨rfl, rfl⟩ := Prod.mk.inj (Except.ok.inj (hrun.symm.trans h))
    exact hcommits
  | cancelAll =>
    obtain ⟨b₁, io₁, hrun, hcommits⟩ := cancelAll_commits (hc ctx)
    obtain ⟨rfl, rfl⟩ := Prod.mk.inj (Except.ok.inj (hrun.symm.trans h))
    exact hcommits

/-- The only assertion a call can fail is the one against registering an event twice. -/
theorem Call.run_error {c : Call} {a : Abort} (hc : io.Consistent)
    (h : c.run io ctx fd fails = .error a) : a = .eventExists := by
  cases c with
  | addEvent event cb scheduler fiber => exact addEvent_error (hc ctx) h
  | delEvent event => cases h
  | cancelEvent event =>
    obtain ⟨b₁, io₁, hrun, -⟩ := cancelEvent_commits (hc ctx)
    cases hrun.symm.trans h
  | cancelAll =>
    obtain ⟨b₁, io₁, hrun, -⟩ := cancelAll_commits (hc ctx)
    cases hrun.symm.trans h

theorem handleEvent_ok {ev : EpollEvent} (hc : io.Consistent)
    (h : io.handleEvent ev fails = .ok io') :
    io.Handles ev fails ∧ ∃ b, Commits io ev.ptr (io.mem ev.ptr).fd .wakes fails b io' := by
  by_cases hhandles : io.Handles ev fails
  · obtain ⟨b, io₁, hrun, hcommits⟩ := handleEvent_commits (hc ev.ptr) hhandles
    obtain rfl := Except.ok.inj (hrun.symm.trans h)
    exact ⟨hhandles, b, hcommits⟩
  · cases (handleEvent_error (hc ev.ptr) hhandles).symm.trans h

namespace System

variable {s s' : System} {a : Step}

theorem consistent_next (hc : s.io.Consistent) (h : s.next a = some s') : s'.io.Consistent := by
  obtain ⟨-, h⟩ := Next.of_next h
  cases h with
  | grown t fd c ctx hpc hctx => exact contextResize_consistent hc _
  | outOfBounds t fd c hpc hctx => exact contextResize_consistent hc _
  | returned t ctx fd c fails b io hpc hrun => exact (Call.run_commits hc hrun).consistent hc
  | handled t event events fails io hpc hrun =>
    obtain ⟨-, b, hcommits⟩ := handleEvent_ok hc hrun
    exact hcommits.consistent hc
  | found | missing | refused | asserted | waited | finished | failed | closed => exact hc

/-- The event loop handles a record whose bits are all registered, or none of them, or it gives
up at `epoll_ctl`. -/
def SnapshotHolds (s : System) : Step → Prop
  | .handle t fails =>
    ∀ event events, s.pc t = .polling (event :: events) → s.io.Handles event fails
  | _ => True

/-- **Step lemma.** A step fails the assertion of `triggerEvent` exactly when the event loop
handles a record that is half stale. -/
theorem triggerEvent_of_next (hc : s.io.Consistent) (h : s.next a = some s') :
    ¬ s'.aborted = some .triggerEvent ↔ SnapshotHolds s a := by
  obtain ⟨hlive, h⟩ := Next.of_next h
  cases h with
  | asserted t ctx fd c fails a hpc hrun =>
    obtain rfl := Call.run_error hc hrun
    exact iff_of_true (by simp) trivial
  | outOfBounds t fd c hpc hctx => exact iff_of_true (by simp) trivial
  | handled t event events fails io hpc hrun =>
    refine iff_of_true (by simp [move, hlive]) fun event' events' hpc' => ?_
    rw [hpc] at hpc'
    obtain ⟨rfl, rfl⟩ := List.cons.inj (Pc.polling.inj hpc')
    exact (handleEvent_ok hc hrun).1
  | failed t event events fails a hpc hrun =>
    have hhandles : ¬ s.io.Handles event fails := by
      intro hhandles
      obtain ⟨b, io₁, hok, -⟩ := handleEvent_commits (hc event.ptr) hhandles
      cases hok.symm.trans hrun
    refine iff_of_false ?_ fun hholds => hhandles (hholds event events hpc)
    obtain rfl := Except.error.inj (hrun.symm.trans (handleEvent_error (hc event.ptr) hhandles))
    simp
  | finished t fails hpc =>
    refine iff_of_true (by simp [move, hlive]) fun event' events' hpc' => ?_
    rw [hpc] at hpc'
    cases hpc'
  | found | missing | grown | returned | waited | closed | refused =>
    exact iff_of_true (by simp [move, hlive]) trivial

/-- **The assertion of `triggerEvent`** holds throughout a run exactly when no record the event
loop handles is half stale. -/
theorem triggerEvent_of_run {as : List Step} (hrun : Transition.run next init as = some s) :
    s.aborted ≠ some .triggerEvent ↔ Transition.StepsMeet next SnapshotHolds init as := by
  refine Transition.not_bad_iff_stepsMeet (fun s => s.io.Consistent)
    (fun s => s.aborted = some .triggerEvent) (fun _ _ _ => consistent_next)
    (fun _ _ _ => triggerEvent_of_next) (fun s a hbad => ?_) new_consistent (by simp [init]) hrun
  simp [next, hbad]

/-- Read and write of one descriptor are registered and become ready together; the read event is
cancelled before the loop gets to the record. -/
def halfStale : List Step :=
  [.call 0 5 (.addEvent .READ none 0 1), .critical 0 false,
    .call 0 5 (.addEvent .WRITE (some 9) 0 1), .critical 0 false,
    .wait 1 [(5, ⟨true, true⟩, false)],
    .call 0 5 (.cancelEvent .READ), .critical 0 false,
    .handle 1 false]

/-- The loop fails the assertion on a half stale record. -/
theorem triggerEvent_halfStale :
    ∃ s, Transition.run next init halfStale = some s ∧ s.aborted = some .triggerEvent :=
  ⟨_, rfl, rfl⟩

/-- On a record that is not stale it does not. -/
theorem triggerEvent_of_run_fresh :
    ∃ s, Transition.run next init
        [.call 0 5 (.addEvent .READ none 0 1), .critical 0 false,
          .wait 1 [(5, ⟨true, false⟩, true)], .handle 1 false] = some s ∧
      Transition.StepsMeet next SnapshotHolds init
        [.call 0 5 (.addEvent .READ none 0 1), .critical 0 false,
          .wait 1 [(5, ⟨true, false⟩, true)], .handle 1 false] :=
  ⟨_, rfl, (triggerEvent_of_run rfl).mp (by decide)⟩

end System

end Muhui.IOManager
