/-
  When `stop` leaves nothing behind.

  A worker leaves `run` after an evaluation of `stopping` that returned true, and what it has read
  may be out of date by then.  All is well as long as there is always one worker that is going to
  look again, or whose reads are still right (`Fact`): the last such worker leaves only when the
  timers, the events and the queue are empty.

  A worker in the loop of `run`, or in an idle fiber that handles timers and events, has read
  nothing, so it is such a worker whatever it adds itself.  There are two ways to lose the last one:
  a worker whose idle fiber is over takes one more task, which adds something (`Drains`), or `stop`
  comes when the reads of all the workers are out of date already.
-/
import Muhui.Shutdown.Truthful

namespace Muhui.Shutdown

variable {P : Type*} [LinearOrder P] {s s' : Shutdown P} {a : Step P}

/-- After `stop` has begun only the workers add timers, events and tasks. -/
def Internal (s : Shutdown P) (a : Step P) : Prop :=
  s.stopping = true → (s.adds a).isSome → (actor a).isSome

instance (s : Shutdown P) (a : Step P) : Decidable (s.Internal a) :=
  inferInstanceAs (Decidable (_ → _ → _))

/-- Some worker whose reads are right has yet to read this. -/
def Noticed (s : Shutdown P) (e : Eval) : Prop :=
  ∃ w, s.workers.mem w ∧ s.Fact w ∧ e ∉ (s.place w).read

/-- The step leaves somebody to do what it adds. -/
structure Drains (s : Shutdown P) (a : Step P) : Prop where
  /-- A worker whose idle fiber is over adds only what another worker is going to notice. -/
  leaving : s.stopping = true → ∀ w e, actor a = some w → s.place w = .leaving →
    s.adds a = some e → s.Noticed e
  /-- When `stop` begins, the reads of some worker are right, or the caller is going to look. -/
  stop : a = .stop → s.workers.caller ≠ none ∨ ∃ w, s.workers.mem w ∧ s.Fact w

/-- A worker that adds something has read nothing yet, or its idle fiber is over. -/
theorem read_of_adds {w : ℕ} {e : Eval} (hnext : s.next a = some s') (hadds : s.adds a = some e)
    (hactor : actor a = some w) :
    s.place w ≠ .outside ∧ (s.place w).read = [] ∨ s.place w = .leaving := by
  have hmay : ∀ {o : Op P}, s.may (some w) o = true → (∀ job, o ≠ .trigger job) →
      s.place w ≠ .outside ∧ (s.place w).read = [] ∨ s.place w = .leaving := by
    intro o hmay ho
    simp only [may, Bool.and_eq_true, Bool.or_eq_true] at hmay
    rcases hmay.2 with hruns | htrigger
    · unfold runsFiber at hruns
      split at hruns
      next hplace _ => exact Or.inl (by simp [hplace, Place.read])
      next hplace _ => exact Or.inr hplace
      next => cases hruns
    · cases o with
      | trigger job => exact absurd rfl (ho job)
      | _ => cases htrigger
  have hstep := Next.of_next hnext
  cases hstep with
  | ran hw hplace =>
    obtain rfl := Option.some.inj (hw.symm.trans hactor)
    rcases hplace with hplace | hplace
    · exact Or.inl (by simp [hplace, Place.read])
    · exact Or.inr hplace
  | scheduled hm | timed hm | eventAdded hm =>
    obtain rfl := hactor
    exact hmay hm fun _ heq => by cases heq
  | submitted hplace =>
    obtain rfl := Option.some.inj hactor
    exact Or.inl (by simp [hplace, Place.read])
  | _ => cases hadds

/-- After `stop` has begun some worker's reads are right. -/
def Watched (s : Shutdown P) : Prop := s.stopping = true → ∃ w, s.workers.mem w ∧ s.Fact w

/-- **Step lemma.** -/
theorem Watched.next (hs : s.Sound) (h : s.Watched) (hinternal : s.Internal a) (hok : s.Drains a)
    (hnext : s.next a = some s') : s'.Watched := by
  have hstep := Next.of_next hnext
  intro hstopping
  rw [workers_next hstep]
  have hkeep : ∀ {w : ℕ}, s.workers.mem w → s.Fact w →
      (∀ e, s.adds a = some e → e ∉ (s.place w).read) →
      ∃ w, s.workers.mem w ∧ s'.Fact w := by
    intro w hw hfact hread
    exact ⟨w, hw, hfact.next hs hread hnext⟩
  rcases stopping_next hstep with hs' | ⟨rfl, -⟩
  · rw [hs'] at hstopping
    cases hadds : s.adds a with
    | none =>
      obtain ⟨w, hw, hfact⟩ := h hstopping
      exact hkeep hw hfact fun e he => by rw [hadds] at he; cases he
    | some e =>
      -- a worker adds `e`
      have hsome : (s.adds a).isSome := by rw [hadds]; rfl
      obtain ⟨w, hactor⟩ := Option.isSome_iff_exists.mp (hinternal hstopping hsome)
      rcases read_of_adds hnext hadds hactor with ⟨hout, hread⟩ | hleaving
      · refine hkeep (hs.mem w hout) (fun e he => ?_) fun e _ he => ?_
        all_goals
          rw [hread] at he
          cases he
      · obtain ⟨v, hv, hfact, hread⟩ := hok.leaving hstopping w e hactor hleaving hadds
        refine hkeep hv hfact fun e' he => ?_
        rw [hadds] at he
        exact Option.some.inj he ▸ hread
  · rcases hok.stop rfl with hcaller | ⟨w, hw, hfact⟩
    · cases hstep with
      | stopped _ hnone => exact absurd hnone hcaller
      | @stopTested w n _ hw =>
        -- the caller has read nothing yet
        refine ⟨w, Or.inr hw, fun e he => ?_⟩
        rw [move_place_self] at he
        cases he
    · exact hkeep hw hfact fun e he => by cases he

/-- **Graceful stop.** If every step leaves somebody to do what it adds, nothing is left when `stop`
returns. -/
theorem drained_of_run {ws : Workers} {now : ℕ} {as : List (Step P)}
    (hrun : Transition.run next (init ws now) as = some s)
    (hinternal : Transition.StepsMeet next Internal (init ws now) as)
    (hok : Transition.StepsMeet next Drains (init ws now) as) (hret : s.Returned) :
    s.sched.fibers = [] ∧ s.timers.tm.timer = [] ∧ s.pendingEventCount = 0 := by
  have hstep : ∀ (s : Shutdown P) (a : Step P) (s' : Shutdown P), s.Sound ∧ s.Watched →
      s.Internal a ∧ s.Drains a → s.next a = some s' → s'.Sound ∧ s'.Watched := by
    intro s a s' hs ha hnext
    exact ⟨hs.1.next hnext, hs.2.next hs.1 ha.1 ha.2 hnext⟩
  have hwatched : (init ws now : Shutdown P).Watched := fun hstopping => by cases hstopping
  obtain ⟨-, hw⟩ := Transition.invariant_of_stepsMeet (fun s => s.Sound ∧ s.Watched) hstep
    ⟨sound_init ws now, hwatched⟩ (hinternal.and hok) hrun
  -- the watching worker has left as well, so it has read everything
  obtain ⟨w, hmem, hfact⟩ := hw hret.1
  have hread : (s.place w).read = [.timer, .pending, .queue] := by
    rw [hret.2 w hmem]
    rfl
  refine ⟨hfact .queue ?_, hfact .timer ?_, hfact .pending ?_⟩
  all_goals
    rw [hread]
    decide

/-- A worker whose idle fiber is over adds nothing, and when `stop` begins some worker has read
nothing. -/
def calm (s : Shutdown P) (a : Step P) : Bool :=
  match a, actor a with
  | .stop, _ => s.workers.pool.any fun w => (s.place w).read.isEmpty
  | a, some w => decide (s.place w ≠ .leaving) || (s.adds a).isNone
  | _, none => true

omit [LinearOrder P] in
theorem Drains.of_calm (h : s.calm a = true) : s.Drains a where
  leaving _ w e hw hplace he := by
    have hstop : a ≠ .stop := by
      rintro rfl
      cases hw
    simp [calm, hw, hplace, he] at h
  stop hstop := by
    subst hstop
    obtain ⟨w, hw, hread⟩ := List.any_eq_true.mp h
    rw [List.isEmpty_iff] at hread
    refine Or.inr ⟨w, Or.inl hw, fun e he => ?_⟩
    rw [hread] at he
    cases he

omit [LinearOrder P] in
theorem returned_of_two {s : Shutdown P} (hws : s.workers = twoWorkers)
    (hstopping : s.stopping = true) (h0 : s.place 0 = .exited) (h1 : s.place 1 = .exited) :
    s.Returned := by
  refine ⟨hstopping, fun w hw => ?_⟩
  rw [hws] at hw
  rcases hw with hw | hw
  · rcases List.mem_cons.mp hw with rfl | hw
    · exact h0
    · obtain rfl := List.mem_singleton.mp hw
      exact h1
  · cases hw

/-- The two workers look once more and leave. -/
def bothLeave : List (Step ℕ) :=
  [.sched (.dequeue 0), .evaluate 0 22, .evaluate 0 22, .evaluate 1 23, .evaluate 1 23,
    .evaluate 0 24, .evaluate 1 24, .sched (.dequeue 0), .sched (.dequeue 1)]

/-- A timer expires while `stop` waits, and its callback runs. -/
theorem drained_of_run_two_workers :
    ∃ s : Shutdown ℕ,
      Transition.run next (init twoWorkers 0) (callbackTaken ++ callbackRun ++ bothLeave) =
        some s ∧
      s.sched.fibers = [] ∧ s.timers.tm.timer = [] ∧ s.pendingEventCount = 0 := by
  refine ⟨_, rfl, ?_⟩
  refine @drained_of_run ℕ _ _ twoWorkers 0 (callbackTaken ++ callbackRun ++ bothLeave) rfl
    (by decide) ?_ (returned_of_two rfl rfl rfl rfl)
  have hcalm : Transition.StepsMeet next (fun s a => s.calm a = true) (init twoWorkers 0)
      (callbackTaken ++ callbackRun ++ bothLeave) := by decide
  exact hcalm.mono fun _ _ => .of_calm

/-- Worker 1, which has evaluated `stopping` while worker 0 held a callback, runs the callback. -/
def callbackRunLate : List (Step ℕ) :=
  [.evaluate 1 21, .evaluate 1 21, .evaluate 1 21, .submit 0, .idleOut 0, .sched (.dequeue 1),
    .sched (.prepare 1), .sched (.swapIn 1), .sched (.dequeue 0), .evaluate 0 22, .evaluate 0 22,
    .op (some 1) (.timer (.addTimer 5 100 8 false 23)), .sched (.yield 1 .term),
    .sched (.swapOut 1), .sched (.count 1), .sched (.post 1), .sched (.dequeue 1), .evaluate 0 24,
    .sched (.dequeue 0)]

/-- The callback adds a timer when worker 0 has read the timers. -/
theorem not_drained_late_timer :
    ∃ s : Shutdown ℕ,
      Transition.run next (init twoWorkers 0) (callbackTaken ++ callbackRunLate) = some s ∧
        Transition.StepsMeet next Internal (init twoWorkers 0) (callbackTaken ++ callbackRunLate) ∧
        s.Returned ∧ s.timers.tm.timer = [5] := by
  exact ⟨_, rfl, by decide, returned_of_two rfl rfl rfl rfl, rfl⟩

end Muhui.Shutdown
