/-
  Fibers that are scheduled on a thread.

  A task that names a thread is passed over by the other workers (`skips`), so a fiber that is
  scheduled on thread `t` is first resumed there.  When it comes back with the state `READY`, `run`
  schedules it again without the thread, and the next worker that scans past it takes it.
  `resumesOn_of_run` says that this is the only way off the thread: as long as no other worker comes
  to the unpinned task first, every resumption is on `t`.
-/
import Muhui.Scheduler.Conservation
import Muhui.Scheduler.Exclusion

namespace Muhui.Scheduler

variable {s s' : Scheduler} {w f t : ℕ}

/-- Nobody schedules the fiber but `run` itself. -/
def Undisturbed (f : ℕ) : Step → Prop
  | .schedule job _ => job ≠ .fiber f
  | .trigger f' => f' ≠ f
  | _ => True

/-- No worker but `t` takes the fiber out of the queue when `run` has put it back there. -/
def LeftTo (f t : ℕ) (s : Scheduler) : Step → Prop
  | .dequeue w => w ≠ t → (take s.state w s.fibers).map Prod.fst ≠ some ⟨.fiber f, none⟩
  | _ => True

/-- A resumption of the fiber is performed by the worker on thread `t`. -/
def ResumesOn (f t : ℕ) (s : Scheduler) : Step → Prop
  | .swapIn w => s.pc w = .entering f false ∨ s.pc w = .entering f true → w = t
  | _ => True

instance : (a : Step) → Decidable (Undisturbed f a)
  | .schedule _ _ | .trigger _ => inferInstanceAs (Decidable (_ ≠ _))
  | .newFiber | .register _ | .dequeue _ | .check _ | .prepare _ | .swapIn _ | .yield _ _
  | .swapOut _ | .count _ | .post _ | .hold _ => inferInstanceAs (Decidable True)

instance : (a : Step) → Decidable (LeftTo f t s a)
  | .dequeue _ => inferInstanceAs (Decidable (_ → _))
  | .newFiber | .register _ | .schedule _ _ | .trigger _ | .check _ | .prepare _ | .swapIn _
  | .yield _ _ | .swapOut _ | .count _ | .post _ | .hold _ => inferInstanceAs (Decidable True)

instance : (a : Step) → Decidable (ResumesOn f t s a)
  | .swapIn _ => inferInstanceAs (Decidable (_ → _))
  | .newFiber | .register _ | .schedule _ _ | .trigger _ | .check _ | .prepare _ | .dequeue _
  | .yield _ _ | .swapOut _ | .count _ | .post _ | .hold _ => inferInstanceAs (Decidable True)

/-- The fiber a worker is about to resume. -/
def Pc.resumes : Pc → Option ℕ
  | taken f | entering f _ => some f
  | _ => none

/-- Nobody else is to resume the fiber: there is no task for it, no worker has taken one, and it is
no worker's `cb_fiber`.  It may be running, and schedule itself. -/
structure Unclaimed (f : ℕ) (s : Scheduler) : Prop where
  queued : ∀ e ∈ s.fibers, e.job ≠ .fiber f
  held : ∀ w, (s.pc w).resumes ≠ some f
  spare : ∀ w, s.cbFiber w ≠ some f

/-- The fiber is in the queue for `t` or for anyone, and no worker but `t` is about to resume it. -/
structure Pinned (f t : ℕ) (s : Scheduler) : Prop where
  queued : ∀ e ∈ s.fibers, e.job = .fiber f → e.thread = some t ∨ e.thread = none
  held : ∀ w, (s.pc w).resumes = some f → w = t
  spare : ∀ w, s.cbFiber w ≠ some f
  created : f < s.created

/-! ### One step -/

/-- A step that neither queues a task nor moves a worker. -/
theorem Pinned.same (h : Pinned f t s) (hfibers : s'.fibers = s.fibers) (hpc : s'.pc = s.pc)
    (hcb : s'.cbFiber = s.cbFiber) (hcreated : s.created ≤ s'.created) : Pinned f t s' where
  queued := by rw [hfibers]; exact h.queued
  held := by rw [hpc]; exact h.held
  spare := by rw [hcb]; exact h.spare
  created := lt_of_lt_of_le h.created hcreated

/-- A task for the queue. -/
theorem Pinned.push (h : Pinned f t s) {job : Job} {thread : Option ℕ}
    (hjob : job = .fiber f → thread = some t ∨ thread = none) :
    Pinned f t (s.push job thread) where
  queued e he heq := by
    rcases List.mem_append.mp he with he | he
    · exact h.queued e he heq
    · obtain rfl := List.mem_singleton.mp he
      exact hjob heq
  held := h.held
  spare := h.spare
  created := h.created

/-- A worker moves on, and not to the fiber unless it is the one on `t`. -/
theorem Pinned.move (h : Pinned f t s) (pc : Pc) (hpc : pc.resumes = some f → w = t) :
    Pinned f t (s.move w pc) where
  queued := h.queued
  held w' hw' := by
    have hw' : (Function.update s.pc w pc w').resumes = some f := hw'
    by_cases hww : w' = w
    · subst hww
      rw [Function.update_self] at hw'
      exact hpc hw'
    · rw [Function.update_of_ne hww] at hw'
      exact h.held w' hw'
  spare := h.spare
  created := h.created

theorem Pinned.setCbFiber (h : Pinned f t s) {o : Option ℕ} (ho : o ≠ some f) :
    Pinned f t { s with cbFiber := Function.update s.cbFiber w o } where
  queued := h.queued
  held := h.held
  spare w' := by
    by_cases hww : w' = w
    · subst hww
      simpa using ho
    · simpa [Function.update_of_ne hww] using h.spare w'
  created := h.created

/-- **The scan.** Only the worker on `t` takes the fiber. -/
theorem Pinned.took (h : Pinned f t s) (hleft : LeftTo f t s (.dequeue w)) {e : FiberAndThread}
    {es : List FiberAndThread} (htake : take s.state w s.fibers = some (e, es)) :
    Pinned f t
      (Scheduler.move { s with fibers := es, activeThreadCount := s.activeThreadCount + 1 } w
        (.ofJob e.job)) := by
  obtain ⟨hmem, hsub⟩ := mem_of_take htake
  have hskips := (take_eq_some htake).2.2
  have hrest :
      Pinned f t { s with fibers := es, activeThreadCount := s.activeThreadCount + 1 } :=
    ⟨fun e' he' => h.queued e' (hsub e' he'), h.held, h.spare, h.created⟩
  refine hrest.move _ fun hpc => ?_
  have hjob : e.job = .fiber f := by
    cases hjob : e.job with
    | fiber f' =>
      rw [hjob] at hpc
      rw [show f' = f from Option.some.inj hpc]
    | cb c =>
      rw [hjob] at hpc
      cases hpc
  obtain ⟨job, thread⟩ := e
  rcases h.queued _ hmem hjob with hthread | hthread
  · -- the task names `t`, and `w` has not passed over it
    unfold skips at hskips
    dsimp only at hthread hskips
    rw [hthread] at hskips
    by_contra hne
    simp [Ne.symm hne] at hskips
  · by_contra hne
    apply hleft hne
    dsimp only at hjob hthread
    rw [htake, hjob, hthread]
    rfl

/-- **Step lemma.** -/
theorem Pinned.next (h : Pinned f t s) {a : Step} (hundisturbed : Undisturbed f a)
    (hleft : LeftTo f t s a) (hnext : s.next a = some s') : Pinned f t s' := by
  obtain ⟨-, hstep⟩ := Next.of_next hnext
  cases hstep with
  | scheduled job thread hjob => exact h.push fun heq => absurd heq hundisturbed
  | built => exact h.same rfl rfl rfl (Nat.le_succ _)
  | registered hpc => exact h.same rfl rfl rfl le_rfl
  | @triggered f' hmem =>
    have hpush : Pinned f t (s.push (.fiber f') none) := h.push fun _ => Or.inr rfl
    exact hpush.same rfl rfl rfl le_rfl
  | nothing hpc htake => exact h
  | took hpc htake => exact h.took hleft htake
  | spent hpc hstate => exact h.move _ (by simp [Pc.resumes])
  | @alive w f' hpc hstate =>
    exact h.move _ fun heq => h.held w (by rw [hpc]; exact heq)
  | @reused w c f' hpc hcb =>
    have hset : Pinned f t (s.setState f' .INIT) := h.same rfl rfl rfl le_rfl
    exact hset.move _ fun heq => absurd (hcb.trans heq) (h.spare w)
  | resetFailed hpc hcb => exact h.same rfl rfl rfl le_rfl
  | @constructed w c hpc hcb =>
    have hne : some s.created ≠ some f := fun heq => h.created.ne (Option.some.inj heq).symm
    have hset : Pinned f t (s.setState s.created .INIT) := h.same rfl rfl rfl le_rfl
    have hmove := hset.move (w := w) (.entering s.created true) fun heq => absurd heq hne
    exact (hmove.setCbFiber hne).same rfl rfl rfl (Nat.le_succ _)
  | swapInFailed hpc hfault => exact h.same rfl rfl rfl le_rfl
  | @entered w f' isCb hpc hstate hrun =>
    have hset : Pinned f t (s.setState f' .EXEC) := h.same rfl rfl rfl le_rfl
    have hmove := hset.move (w := w) (.running f' isCb) (by simp [Pc.resumes])
    exact hmove.same rfl rfl rfl le_rfl
  | yieldFailed hpc hy hstate => exact h.same rfl rfl rfl le_rfl
  | @yielded w f' isCb y hpc =>
    have hset : Pinned f t (s.setState f' y.state) := h.same rfl rfl rfl le_rfl
    exact hset.move _ (by simp [Pc.resumes])
  | @swappedOut w f' isCb hpc =>
    have hmove := h.move (w := w) (.returned f' isCb) (by simp [Pc.resumes])
    exact hmove.same rfl rfl rfl le_rfl
  | dropped hpc =>
    have hcount : Pinned f t { s with activeThreadCount := s.activeThreadCount - 1 } :=
      h.same rfl rfl rfl le_rfl
    exact hcount.move _ (by simp [Pc.resumes])
  | @counted w f' isCb hpc =>
    have hcount : Pinned f t { s with activeThreadCount := s.activeThreadCount - 1 } :=
      h.same rfl rfl rfl le_rfl
    exact hcount.move _ (by simp [Pc.resumes])
  | @ready w f' isCb hpc hstate =>
    -- the task is for anyone
    have hpush : Pinned f t (s.push (.fiber f') none) := h.push fun _ => Or.inr rfl
    have hmove := hpush.move (w := w) .scanning (by simp [Pc.resumes])
    cases isCb with
    | false => exact hmove
    | true => exact hmove.setCbFiber (by simp)
  | @ended w f' isCb hpc hstate =>
    cases isCb with
    | false => exact h.move _ (by simp [Pc.resumes])
    | true =>
      have hset : Pinned f t (s.setState f' .INIT) := h.same rfl rfl rfl le_rfl
      exact hset.move _ (by simp [Pc.resumes])
  | waits hpc hready hstate => exact h.move _ (by simp [Pc.resumes])
  | @put w f' isCb hpc =>
    have hset : Pinned f t (s.setState f' .HOLD) := h.same rfl rfl rfl le_rfl
    have hmove := hset.move (w := w) .scanning (by simp [Pc.resumes])
    cases isCb with
    | false => exact hmove
    | true => exact hmove.setCbFiber (by simp)

theorem Pinned.resumesOn (h : Pinned f t s) (a : Step) : ResumesOn f t s a := by
  cases a with
  | swapIn w =>
    rintro (hpc | hpc)
    · exact h.held w (by rw [hpc]; rfl)
    · exact h.held w (by rw [hpc]; rfl)
  | schedule | newFiber | register | trigger | dequeue | check | prepare | yield | swapOut | count
  | post | hold => trivial

/-! ### Runs -/

/-- Scheduling a fiber that nobody has on a thread. -/
theorem pinned_of_schedule (h : Unclaimed f s)
    (hnext : s.next (.schedule (.fiber f) (some t)) = some s') : Pinned f t s' := by
  obtain ⟨-, hstep⟩ := Next.of_next hnext
  cases hstep with
  | scheduled job thread hjob =>
    have hpinned : Pinned f t s :=
      ⟨fun e he heq => absurd heq (h.queued e he), fun w hw => absurd hw (h.held w), h.spare,
        by simpa [knows] using hjob⟩
    exact hpinned.push fun _ => Or.inl rfl

/-- **When a fiber stays on the thread it is scheduled on**: as long as no other worker takes it out
of the queue after `run` has scheduled it again. -/
theorem resumesOn_of_run (h : Unclaimed f s)
    (hschedule : s.next (.schedule (.fiber f) (some t)) = some s') {as : List Step}
    (hundisturbed : ∀ a ∈ as, Undisturbed f a)
    (hleft : Transition.StepsMeet next (LeftTo f t) s' as) :
    Transition.StepsMeet next (ResumesOn f t) s' as := by
  have halone : Transition.StepsMeet next (fun _ a => Undisturbed f a) s' as := by
    rw [Transition.stepsMeet_iff]
    intro pre a post heq _ _
    exact hundisturbed a (by simp [heq])
  exact Transition.StepsMeet.of_invariant (Pinned f t)
    (fun _ _ _ hs hok hnext => hs.next hok.1 hok.2 hnext) (fun _ a hs _ => hs.resumesOn a)
    (pinned_of_schedule h hschedule) (halone.and hleft)

/-- Two workers and a fiber that yields twice on the second of them. -/
def pinnedRun : List Step :=
  [.dequeue 1, .dequeue 2, .check 2, .swapIn 2, .yield 2 .toReady, .swapOut 2, .count 2, .post 2,
    .dequeue 2, .check 2, .swapIn 2, .yield 2 .toHold, .swapOut 2, .count 2, .post 2, .hold 2]

theorem resumesOn_of_run_twice :
    ∃ s s', Transition.run next init [.newFiber] = some s ∧
      s.next (.schedule (.fiber 0) (some 2)) = some s' ∧
      (Transition.run next s' pinnedRun).isSome = true ∧
      Transition.StepsMeet next (ResumesOn 0 2) s' pinnedRun :=
  ⟨_, _, rfl, rfl, rfl,
    resumesOn_of_run (s := { init.setState 0 .INIT with created := 1 })
      ⟨by simp [init, setState], by simp [init, setState, Pc.resumes], by simp [init, setState]⟩
      rfl (by decide) (by decide)⟩

/-- After one `YieldToReady` the worker 1 takes the fiber that was scheduled on thread 2. -/
theorem not_resumesOn_after_yieldToReady :
    ∃ s s', Transition.run next init [.newFiber] = some s ∧
      s.next (.schedule (.fiber 0) (some 2)) = some s' ∧
      (∀ a ∈ [.dequeue 2, .check 2, .swapIn 2, .yield 2 .toReady, .swapOut 2, .count 2, .post 2,
        .dequeue 1, .check 1, .swapIn 1], Undisturbed 0 a) ∧
      ¬Transition.StepsMeet next (ResumesOn 0 2) s'
        [.dequeue 2, .check 2, .swapIn 2, .yield 2 .toReady, .swapOut 2, .count 2, .post 2,
          .dequeue 1, .check 1, .swapIn 1] :=
  ⟨_, _, rfl, rfl, by decide, by decide⟩

end Muhui.Scheduler
