/-
  What one step of an `IOManager` and its threads can do.

  `Next s a s'` has a constructor for each way a step can go, and `Next.of_next` says that there are
  no others.  It is to `Shutdown.next` what `Scheduler.Next` is to the steps of `run`.
-/
import Muhui.Shutdown.Basic

namespace Muhui.Shutdown

open Scheduler (Job take)

variable {P : Type*} [LinearOrder P]

/-- The outcomes of a step. -/
inductive Next (s : Shutdown P) : Step P → Shutdown P → Prop
  | ran {a : Scheduler.Step} {w : ℕ} {sched : Scheduler} (hw : worker a = some w)
    (hplace : s.place w = .running ∨ s.place w = .leaving) (hsched : s.sched.next a = some sched) :
    Next s (.sched a) { s with sched := sched }
  | idled {w : ℕ} (hplace : s.place w = .running) :
    Next s (.sched (.dequeue w)) (s.move w (.idle (.test .timer)))
  | left {w : ℕ} (hplace : s.place w = .leaving) :
    Next s (.sched (.dequeue w)) (s.move w .exited)
  | scheduled {by' : Option ℕ} {job : Job} {thread : Option ℕ}
    (hmay : s.may by' (.schedule job thread : Op P) = true) :
    Next s (.op by' (.schedule job thread)) { s with sched := s.sched.push job thread }
  | built {by' : Option ℕ} {sched : Scheduler} (hsched : s.sched.next .newFiber = some sched)
    (hfibers : sched.fibers = s.sched.fibers) : Next s (.op by' .newFiber) { s with sched := sched }
  | timed {by' : Option ℕ} {a : TimerManager.Step P ℕ} {timers : TimerManager.System P ℕ}
    (hmay : s.may by' (.timer a) = true) (htimers : s.timers.next a = some timers) :
    Next s (.op by' (.timer a)) { s with timers := timers }
  | eventAdded {by' cb : Option ℕ} {job : Job} (hmay : s.may by' (.addEvent cb : Op P) = true) :
    Next s (.op by' (.addEvent cb))
      { s with waiting := job :: s.waiting, pendingEventCount := s.pendingEventCount + 1 }
  | eventDeleted {by' : Option ℕ} {job : Job} (hmem : job ∈ s.waiting) :
    Next s (.op by' (.delEvent job))
      { s with
        waiting := s.waiting.erase job
        pendingEventCount := s.pendingEventCount - 1 }
  | triggered {by' : Option ℕ} {job : Job} (hmem : job ∈ s.waiting) :
    Next s (.op by' (.trigger job))
      { s with
        sched := s.sched.push job none
        waiting := s.waiting.erase job
        owing := by' :: s.owing }
  | settled {by' : Option ℕ} (hmem : by' ∈ s.owing) :
    Next s (.settle by')
      { s with
        pendingEventCount := s.pendingEventCount - 1
        owing := s.owing.erase by' }
  | readTimer {w now : ℕ} {p : Place} (heval : (s.place w).eval = some .timer) (hnow : now ≠ 0)
    (hp : ((s.timers.tm.getNextTimer now).1 = 2 ^ 64 - 1 ∧ p = (s.place w).goOn .pending) ∨
      p = (s.place w).fail) :
    Next s (.evaluate w now)
      (move { s with timers := { s.timers with tm := (s.timers.tm.getNextTimer now).2 } } w p)
  | readPending {w now : ℕ} {p : Place} (heval : (s.place w).eval = some .pending)
    (hp : (s.pendingEventCount = 0 ∧ p = (s.place w).goOn .queue) ∨ p = (s.place w).fail) :
    Next s (.evaluate w now) (s.move w p)
  | readQueue {w now : ℕ} {p : Place} (heval : (s.place w).eval = some .queue)
    (hp : (s.schedStopping = true ∧ p = (s.place w).pass) ∨ p = (s.place w).fail) :
    Next s (.evaluate w now) (s.move w p)
  | woke {w : ℕ} (hplace : s.place w = .idle .waiting) :
    Next s (.wake w) (s.move w (.idle .listing))
  | listTested {w now : ℕ} {timers : TimerManager.System P ℕ} {i : Idle}
    (hplace : s.place w = .idle .listing) (htimers : s.timers.next (.listTest now) = some timers)
    (hi : i = .holding [] ∨ i = .taking now) :
    Next s (.listTest w now) (move { s with timers := timers } w (.idle i))
  | listTaken {w now : ℕ} {probe : P} {timers : TimerManager.System P ℕ}
    (hplace : s.place w = .idle (.taking now))
    (htimers : s.timers.next (.listTake now probe) = some timers) :
    Next s (.listTake w probe)
      (move { s with timers := timers } w (.idle (.holding (s.expired now probe))))
  | submitted {w : ℕ} {cbs : List (Option ℕ)} (hplace : s.place w = .idle (.holding cbs)) :
    Next s (.submit w)
      (move { s with
        sched := { s.sched with
          fibers := s.sched.fibers ++ (cbs.filterMap id).map fun c => ⟨.cb c, none⟩ } } w
        (.idle .triggering))
  | switched {w : ℕ} (hplace : s.place w = .idle .triggering) :
    Next s (.idleOut w) (s.move w .running)
  | stopped (hstop : s.stopping = false) (hcaller : s.workers.caller = none) :
    Next s .stop { s with stopping := true }
  | stopTested {w n : ℕ} (hstop : s.stopping = false) (hcaller : s.workers.caller = some w) :
    Next s .stop (move { s with stopping := true } w (.stopTest n .timer))

variable {s s' : Shutdown P}

theorem Next.of_op {by' : Option ℕ} {o : Op P} (hmay : s.may by' o = true)
    (hnext : s.op by' o = some s') : Next s (.op by' o) s' := by
  cases o with
  | schedule job thread =>
    obtain ⟨sched, hsched, rfl⟩ := Option.map_eq_some_iff.mp hnext
    obtain ⟨-, hsched⟩ := Scheduler.Next.of_next hsched
    cases hsched
    exact .scheduled hmay
  | newFiber =>
    obtain ⟨sched, hsched, rfl⟩ := Option.map_eq_some_iff.mp hnext
    have hfibers : sched.fibers = s.sched.fibers := by
      obtain ⟨-, hbuilt⟩ := Scheduler.Next.of_next hsched
      cases hbuilt
      rfl
    exact .built hsched hfibers
  | timer a =>
    simp only [op] at hnext
    split_ifs at hnext
    obtain ⟨timers, htimers, rfl⟩ := Option.map_eq_some_iff.mp hnext
    exact .timed hmay htimers
  | addEvent cb =>
    obtain ⟨job, -, rfl⟩ := Option.map_eq_some_iff.mp hnext
    exact .eventAdded hmay
  | delEvent job =>
    simp only [op] at hnext
    split_ifs at hnext with hmem
    obtain rfl := Option.some.inj hnext
    exact .eventDeleted hmem
  | trigger job =>
    simp only [op] at hnext
    split_ifs at hnext with hmem
    obtain rfl := Option.some.inj hnext
    exact .triggered hmem

theorem Next.of_evaluate {w now : ℕ} (hnext : s.evaluate w now = some s') :
    Next s (.evaluate w now) s' := by
  unfold evaluate at hnext
  split at hnext
  · cases hnext
  · by_cases hnow : now = 0
    · rw [if_pos hnow] at hnext
      cases hnext
    rw [if_neg hnow] at hnext
    obtain rfl := Option.some.inj hnext
    refine .readTimer ‹_› hnow ?_
    by_cases hmax : (s.timers.tm.getNextTimer now).1 = 2 ^ 64 - 1
    · exact Or.inl ⟨hmax, if_pos hmax⟩
    · exact Or.inr (if_neg hmax)
  · obtain rfl := Option.some.inj hnext
    refine .readPending ‹_› ?_
    split_ifs with hpending
    · exact Or.inl ⟨hpending, rfl⟩
    · exact Or.inr rfl
  · obtain rfl := Option.some.inj hnext
    refine .readQueue ‹_› ?_
    split_ifs with hstopping
    · exact Or.inl ⟨hstopping, rfl⟩
    · exact Or.inr rfl

theorem Next.of_schedStep {a : Scheduler.Step} {w : ℕ} (hw : worker a = some w)
    (hnext : s.schedStep a w = some s') : Next s (.sched a) s' := by
  unfold schedStep at hnext
  split at hnext
  case isFalse => cases hnext
  case isTrue hplace =>
  split at hnext
  next v htake =>
    obtain rfl := Option.some.inj hw
    obtain ⟨sched, hsched, rfl⟩ := Option.map_eq_some_iff.mp hnext
    -- the scan finds nothing, so the scheduler stays as it is
    obtain ⟨-, hsched⟩ := Scheduler.Next.of_next hsched
    cases hsched with
    | nothing =>
      by_cases hrunning : s.place v = .running
      · rw [if_pos hrunning]
        exact .idled hrunning
      · rw [if_neg hrunning]
        exact .left (hplace.1.resolve_left hrunning)
    | took hpc hsome =>
      rw [htake] at hsome
      cases hsome
  next =>
    obtain ⟨sched, hsched, rfl⟩ := Option.map_eq_some_iff.mp hnext
    exact .ran hw hplace.1 hsched

/-- **Inversion.** -/
theorem Next.of_next {a : Step P} (hnext : s.next a = some s') : Next s a s' := by
  unfold Shutdown.next at hnext
  split at hnext
  · cases hnext
  cases a with
  | sched a =>
    obtain ⟨w, hw, hnext⟩ := Option.bind_eq_some_iff.mp hnext
    exact .of_schedStep hw hnext
  | op by' o =>
    simp only at hnext
    split_ifs at hnext with hmay
    exact .of_op hmay hnext
  | settle by' =>
    simp only at hnext
    split_ifs at hnext with hmem
    obtain rfl := Option.some.inj hnext
    exact .settled hmem
  | evaluate w now => exact .of_evaluate hnext
  | wake w =>
    simp only at hnext
    split_ifs at hnext with hplace
    obtain rfl := Option.some.inj hnext
    exact .woke hplace
  | listTest w now =>
    simp only at hnext
    split_ifs at hnext with hplace
    all_goals
      obtain ⟨timers, htimers, rfl⟩ := Option.map_eq_some_iff.mp hnext
    · exact .listTested hplace htimers (Or.inl rfl)
    · exact .listTested hplace htimers (Or.inr rfl)
  | listTake w probe =>
    simp only at hnext
    split at hnext
    · obtain ⟨timers, htimers, rfl⟩ := Option.map_eq_some_iff.mp hnext
      exact .listTaken ‹_› htimers
    · cases hnext
  | submit w =>
    simp only at hnext
    split at hnext
    · obtain rfl := Option.some.inj hnext
      exact .submitted ‹_›
    · cases hnext
  | idleOut w =>
    simp only at hnext
    split_ifs at hnext with hplace
    obtain rfl := Option.some.inj hnext
    exact .switched hplace.1
  | stop =>
    simp only at hnext
    split_ifs at hnext with hstop
    all_goals rw [Bool.not_eq_true] at hstop
    all_goals
      split at hnext
      all_goals obtain rfl := Option.some.inj hnext
    all_goals first
      | exact .stopped hstop ‹_›
      | exact .stopTested hstop ‹_›

end Muhui.Shutdown
