/-
  What one step of a scheduler can do.

  `Next s a s'` has a constructor for each way through the sections of `run`, with what the section
  has seen and the state it leaves.  `Next.of_next` says that there are no others; invariants are
  proved by cases on it.
-/
import Mathlib.Tactic.Common
import Muhui.Scheduler.Basic

namespace Muhui.Scheduler

/-- Where a worker is when it has taken a job out of the queue. -/
def Pc.ofJob : Job → Pc
  | .fiber f => .taken f
  | .cb c => .takenCb c

/-- The failed assertions of `swapIn`, with what they have seen. -/
inductive SwapInFault (s : Scheduler) (f : ℕ) : Fault → Prop
  | exec (hstate : s.state f = .EXEC) : SwapInFault s f .swapInAssert
  | stale (hstate : s.state f ≠ .EXEC) (hrun : s.inRun f = true) : SwapInFault s f .staleResume

/-- The outcomes of a step. -/
inductive Next (s : Scheduler) : Step → Scheduler → Prop
  | scheduled (job : Job) (thread : Option ℕ) (hjob : s.knows job = true) :
    Next s (.schedule job thread) (s.push job thread)
  | built : Next s .newFiber { s.setState s.created .INIT with created := s.created + 1 }
  | registered {w f : ℕ} {isCb : Bool} (hpc : s.pc w = .running f isCb) :
    Next s (.register w) { s with registered := f :: s.registered }
  | triggered {f : ℕ} (hmem : f ∈ s.registered) :
    Next s (.trigger f) { s.push (.fiber f) none with registered := s.registered.erase f }
  | nothing {w : ℕ} (hpc : s.pc w = .scanning) (htake : take s.state w s.fibers = none) :
    Next s (.dequeue w) s
  | took {w : ℕ} {t : FiberAndThread} {ts : List FiberAndThread} (hpc : s.pc w = .scanning)
    (htake : take s.state w s.fibers = some (t, ts)) :
    Next s (.dequeue w)
      (move { s with fibers := ts, activeThreadCount := s.activeThreadCount + 1 } w
        (.ofJob t.job))
  | spent {w f : ℕ} (hpc : s.pc w = .taken f) (hstate : finished (s.state f) = true) :
    Next s (.check w) (s.move w .dropping)
  | alive {w f : ℕ} (hpc : s.pc w = .taken f) (hstate : finished (s.state f) = false) :
    Next s (.check w) (s.move w (.entering f false))
  | reused {w c f : ℕ} (hpc : s.pc w = .takenCb c) (hcb : s.cbFiber w = some f) :
    Next s (.prepare w) ((s.setState f .INIT).move w (.entering f true))
  | resetFailed {w c f : ℕ} (hpc : s.pc w = .takenCb c) (hcb : s.cbFiber w = some f) :
    Next s (.prepare w) { s with fault := some .resetAssert }
  | constructed {w c : ℕ} (hpc : s.pc w = .takenCb c) (hcb : s.cbFiber w = none) :
    Next s (.prepare w)
      { (s.setState s.created .INIT).move w (.entering s.created true) with
        created := s.created + 1
        cbFiber := Function.update s.cbFiber w (some s.created) }
  | swapInFailed {w f : ℕ} {isCb : Bool} {fault : Fault} (hpc : s.pc w = .entering f isCb)
    (hfault : SwapInFault s f fault) : Next s (.swapIn w) { s with fault := some fault }
  | entered {w f : ℕ} {isCb : Bool} (hpc : s.pc w = .entering f isCb) (hstate : s.state f ≠ .EXEC)
    (hrun : s.inRun f = false) :
    Next s (.swapIn w)
      { (s.setState f .EXEC).move w (.running f isCb) with
        inRun := Function.update s.inRun f true }
  | yieldFailed {w f : ℕ} {isCb : Bool} {y : Yield} (hpc : s.pc w = .running f isCb)
    (hy : y.asserts = true) (hstate : s.state f ≠ .EXEC) :
    Next s (.yield w y) { s with fault := some .yieldAssert }
  | yielded {w f : ℕ} {isCb : Bool} {y : Yield} (hpc : s.pc w = .running f isCb) :
    Next s (.yield w y) ((s.setState f y.state).move w (.swappingOut f isCb))
  | swappedOut {w f : ℕ} {isCb : Bool} (hpc : s.pc w = .swappingOut f isCb) :
    Next s (.swapOut w)
      { s.move w (.returned f isCb) with inRun := Function.update s.inRun f false }
  | dropped {w : ℕ} (hpc : s.pc w = .dropping) :
    Next s (.count w)
      (move { s with activeThreadCount := s.activeThreadCount - 1 } w .scanning)
  | counted {w f : ℕ} {isCb : Bool} (hpc : s.pc w = .returned f isCb) :
    Next s (.count w)
      (move { s with activeThreadCount := s.activeThreadCount - 1 } w (.counted f isCb))
  | ready {w f : ℕ} {isCb : Bool} (hpc : s.pc w = .counted f isCb) (hstate : s.state f = .READY) :
    Next s (.post w)
      { (s.push (.fiber f) none).move w .scanning with
        cbFiber := if isCb then Function.update s.cbFiber w none else s.cbFiber }
  | ended {w f : ℕ} {isCb : Bool} (hpc : s.pc w = .counted f isCb)
    (hstate : finished (s.state f) = true) :
    Next s (.post w) ((if isCb then s.setState f .INIT else s).move w .scanning)
  | waits {w f : ℕ} {isCb : Bool} (hpc : s.pc w = .counted f isCb) (hready : s.state f ≠ .READY)
    (hstate : finished (s.state f) = false) : Next s (.post w) (s.move w (.holding f isCb))
  | put {w f : ℕ} {isCb : Bool} (hpc : s.pc w = .holding f isCb) :
    Next s (.hold w)
      { (s.setState f .HOLD).move w .scanning with
        cbFiber := if isCb then Function.update s.cbFiber w none else s.cbFiber }

variable {s s' : Scheduler}

/-- **Inversion.** -/
theorem Next.of_next {a : Step} (hnext : s.next a = some s') : s.fault = none ∧ Next s a s' := by
  unfold Scheduler.next at hnext
  split at hnext
  · cases hnext
  next hfault =>
  refine ⟨by simpa using hfault, ?_⟩
  cases a with
  | schedule job thread =>
    simp only at hnext
    split_ifs at hnext with hjob
    obtain rfl := Option.some.inj hnext
    exact .scheduled job thread hjob
  | newFiber =>
    obtain rfl := Option.some.inj hnext
    exact .built
  | register w =>
    simp only at hnext
    split at hnext
    next f isCb hpc =>
      obtain rfl := Option.some.inj hnext
      exact .registered hpc
    next => cases hnext
  | trigger f =>
    simp only at hnext
    split_ifs at hnext with hmem
    obtain rfl := Option.some.inj hnext
    exact .triggered hmem
  | dequeue w =>
    simp only [dequeue] at hnext
    split_ifs at hnext with hpc
    split at hnext
    next htake =>
      obtain rfl := Option.some.inj hnext
      exact .nothing hpc htake
    next t ts htake =>
      have htook := Next.took hpc htake
      obtain ⟨job, thread⟩ := t
      cases job
      all_goals
        obtain rfl := Option.some.inj hnext
        exact htook
  | check w =>
    simp only [check] at hnext
    split at hnext
    next f hpc =>
      split_ifs at hnext with hstate
      all_goals obtain rfl := Option.some.inj hnext
      · exact .spent hpc hstate
      · exact .alive hpc (by simpa using hstate)
    next => cases hnext
  | prepare w =>
    simp only [prepare] at hnext
    split at hnext
    next c f hpc hcb =>
      split at hnext
      next s₁ hreset =>
        unfold reset at hreset
        split_ifs at hreset
        obtain rfl := Option.some.inj hreset
        obtain rfl := Option.some.inj hnext
        exact .reused hpc hcb
      next =>
        obtain rfl := Option.some.inj hnext
        exact .resetFailed hpc hcb
    next c hpc hcb =>
      obtain rfl := Option.some.inj hnext
      exact .constructed hpc hcb
    next => cases hnext
  | swapIn w =>
    simp only [swapIn] at hnext
    split at hnext
    next f isCb hpc =>
      split_ifs at hnext with hstate hrun
      all_goals obtain rfl := Option.some.inj hnext
      · exact .swapInFailed hpc (.exec hstate)
      · exact .swapInFailed hpc (.stale hstate hrun)
      · exact .entered hpc hstate (by simpa using hrun)
    next => cases hnext
  | yield w y =>
    simp only [yield] at hnext
    split at hnext
    next f isCb hpc =>
      split_ifs at hnext with hfail
      all_goals obtain rfl := Option.some.inj hnext
      · exact .yieldFailed hpc hfail.1 hfail.2
      · exact .yielded hpc
    next => cases hnext
  | swapOut w =>
    simp only [swapOut] at hnext
    split at hnext
    next f isCb hpc =>
      obtain rfl := Option.some.inj hnext
      exact .swappedOut hpc
    next => cases hnext
  | count w =>
    simp only [count] at hnext
    split at hnext
    next hpc =>
      obtain rfl := Option.some.inj hnext
      exact .dropped hpc
    next f isCb hpc =>
      obtain rfl := Option.some.inj hnext
      exact .counted hpc
    next => cases hnext
  | post w =>
    simp only [post] at hnext
    split at hnext
    next f isCb hpc =>
      by_cases hready : s.state f = .READY
      · have hnext' := Next.ready hpc hready
        rw [if_pos hready] at hnext
        cases isCb
        all_goals
          obtain rfl := Option.some.inj hnext
          exact hnext'
      rw [if_neg hready] at hnext
      by_cases hstate : finished (s.state f) = true
      · -- a fiber that is over can be reset
        have hnext' := Next.ended hpc hstate
        have hreset : s.reset f = some (s.setState f .INIT) := if_pos (Or.inr hstate)
        rw [if_pos hstate, hreset] at hnext
        cases isCb
        all_goals
          obtain rfl := Option.some.inj hnext
          exact hnext'
      · rw [if_neg hstate] at hnext
        obtain rfl := Option.some.inj hnext
        exact .waits hpc hready (by simpa using hstate)
    next => cases hnext
  | hold w =>
    simp only [hold] at hnext
    split at hnext
    next f isCb hpc =>
      have hput := Next.put hpc
      cases isCb
      all_goals
        obtain rfl := Option.some.inj hnext
        exact hput
    next => cases hnext

end Muhui.Scheduler
