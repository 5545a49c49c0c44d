/-
  When `IOManager::stopping` tells the truth.

  An evaluation of `stopping` by `w` consists of three reads, with steps of the other threads
  between them.  `Truthful` is what its result `true` is taken to mean at the last read.  It does
  not always mean it: the timers and the events are not looked at again, and the callbacks that an
  idle worker has taken out of the timers and not yet scheduled are in none of the three.

  `truthful_of_evaluation` says when it does.  The reads of the timers and of the events stay right
  as facts (`Fact.run`).  No worker can have taken callbacks during the evaluation, since there were
  no timers to take (`callbacks_next`); one that had taken some before has to have scheduled
  them.
-/
import Muhui.Shutdown.Evaluation

namespace Muhui.Shutdown

variable {P : Type*} [LinearOrder P] {s s' : Shutdown P} {w v : ℕ} {as : List (Step P)}

/-- The callbacks of expired timers that a worker in this place has not scheduled yet. -/
def Place.callbacks : Place → List (Option ℕ)
  | idle (.holding cbs) => cbs
  | _ => []

/-- There is nothing left to do. -/
structure Truthful (s : Shutdown P) : Prop where
  timer : s.timers.tm.timer = []
  pending : s.pendingEventCount = 0
  fibers : s.sched.fibers = []
  /-- No worker is running a task. -/
  active : ∀ w, (s.sched.pc w).active = false
  callbacks : ∀ w, (s.place w).callbacks = []

/-! ### The reads in between -/

/-- A thread makes its second and its third read only after its own reads. -/
theorem place_of_eval {a : Step P} {e : Eval} (hnext : Next s a s')
    (heval : (s'.place w).eval = some e) (he : e ≠ .timer) (ha : ∀ now, a ≠ .evaluate w now) :
    s'.place w = s.place w := by
  have hmove : ∀ {t : Shutdown P} {v : ℕ} {p : Place}, t.place = s.place →
      ((t.move v p).place w).eval = some e → (v = w → p.eval ≠ some e) →
      (t.move v p).place w = s.place w := by
    intro t v p ht hmoved hp
    by_cases hw : w = v
    · subst hw
      rw [move_place_self] at hmoved
      exact absurd hmoved (hp rfl)
    · rw [move_place_of_ne hw, ht]
  have htimer : some Eval.timer ≠ some e := fun h => he (Option.some.inj h).symm
  cases hnext with
  | ran | scheduled | built | timed | eventAdded | eventDeleted | triggered | settled | stopped =>
    rfl
  | idled | stopTested => exact hmove rfl heval fun _ => htimer
  | left | woke | listTaken | submitted | switched => exact hmove rfl heval fun _ h => by cases h
  | listTested _ _ hi =>
    refine hmove rfl heval fun _ => ?_
    rcases hi with rfl | rfl
    all_goals exact fun h => by cases h
  | readTimer | readPending | readQueue =>
    refine hmove rfl heval fun hv => ?_
    subst hv
    exact absurd rfl (ha _)

theorem place_of_eval_run {e : Eval} (hrun : Transition.run next s as = some s')
    (heval : (s'.place w).eval = some e) (he : e ≠ .timer) (has : ∀ now, .evaluate w now ∉ as) :
    s'.place w = s.place w := by
  induction as generalizing s with
  | nil =>
    obtain rfl := Option.some.inj hrun
    rfl
  | cons a as ih =>
    obtain ⟨s₁, hnext, hrun⟩ := Transition.run_cons_eq_some.mp hrun
    have hrest := ih hrun fun now hmem => has now (List.mem_cons_of_mem _ hmem)
    rw [hrest] at heval ⊢
    refine place_of_eval (Next.of_next hnext) heval he fun now heq => has now ?_
    rw [heq]
    exact List.mem_cons_self

/-- The second read of an evaluation comes after the first, and the third after the second. -/
theorem eval_of_evaluate {now : ℕ} {e : Eval} (hnext : Next s (.evaluate w now) s')
    (heval : (s'.place w).eval = some e) :
    e = .timer ∨ e = .pending ∧ (s.place w).eval = some .timer ∨
      e = .queue ∧ (s.place w).eval = some .pending := by
  have hfail : ∀ {p : Place} {e' : Eval}, p.eval = some e' → p.fail.eval = some e → e = .timer := by
    intro p e' hp hp'
    rcases Place.eval_fail hp with hnone | htimer
    · rw [hnone] at hp'
      cases hp'
    · exact Option.some.inj (hp'.symm.trans htimer)
  cases hnext with
  | readTimer hold _ hp =>
    rw [move_place_self] at heval
    rcases hp with ⟨-, rfl⟩ | rfl
    · rw [Place.eval_goOn hold] at heval
      exact Or.inr (Or.inl ⟨(Option.some.inj heval).symm, hold⟩)
    · exact Or.inl (hfail hold heval)
  | readPending hold hp =>
    rw [move_place_self] at heval
    rcases hp with ⟨-, rfl⟩ | rfl
    · rw [Place.eval_goOn hold] at heval
      exact Or.inr (Or.inr ⟨(Option.some.inj heval).symm, hold⟩)
    · exact Or.inl (hfail hold heval)
  | readQueue hold hp =>
    rw [move_place_self] at heval
    rcases hp with ⟨-, rfl⟩ | rfl
    · rw [Place.eval_pass hold] at heval
      cases heval
    · exact Or.inl (hfail hold heval)

/-- What `w` has read before its next read stays so, if the steps in between add nothing to it. -/
theorem Fact.run {e : Eval} (hs : s.Sound) (h : s.Fact w)
    (hrun : Transition.run Shutdown.next s as = some s')
    (heval : (s'.place w).eval = some e) (he : e ≠ .timer) (has : ∀ now, .evaluate w now ∉ as)
    (hadds : ∀ a ∈ as, ∀ t : Shutdown P, ∀ e' ∈ (s'.place w).read, t.adds a ≠ some e') :
    s'.Fact w := by
  induction as generalizing s with
  | nil =>
    obtain rfl := Option.some.inj hrun
    exact h
  | cons a as ih =>
    have hplace := place_of_eval_run hrun heval he has
    obtain ⟨s₁, hnext, hrun⟩ := Transition.run_cons_eq_some.mp hrun
    refine ih (hs.next hnext) (h.next hs (fun e' ha he' => ?_) hnext) hrun
      (fun now hmem => has now (List.mem_cons_of_mem _ hmem))
      fun b hb => hadds b (List.mem_cons_of_mem _ hb)
    rw [← hplace] at he'
    exact hadds a List.mem_cons_self s e' he' ha

/-! ### The callbacks of expired timers -/

/-- `listExpiredCb` takes nothing out of an empty set. -/
theorem expired_of_nil (hnil : s.timers.tm.timer = []) (now : ℕ) (probe : P) :
    s.expired now probe = [] := by
  have hnil' : (s.timers.tm.detectClockRollover now).2.timer = [] := hnil
  unfold expired TimerManager.listExpiredCb
  split
  next out m' hok =>
    rcases TimerManager.takeExpired_eq hok with ⟨rfl, -⟩ | heq
    · rfl
    · rw [hnil', List.take_nil] at heq
      obtain rfl := congrArg Prod.fst heq
      rfl
  next => rfl

theorem callbacks_eq_nil_of_eval {p : Place} {e : Eval} (h : p.eval = some e) :
    p.fail.callbacks = [] ∧ p.pass.callbacks = [] ∧ ∀ e', (p.goOn e').callbacks = [] := by
  unfold Place.eval at h
  split at h
  case h_1 n e' =>
    rcases n with _ | _ | n
    all_goals exact ⟨rfl, rfl, fun _ => rfl⟩
  case h_2 => exact ⟨rfl, rfl, fun _ => rfl⟩
  case h_3 => cases h

/-- While there are no timers, no idle worker gets hold of callbacks. -/
theorem callbacks_next {a : Step P} (hnext : Next s a s') (h : (s'.place v).callbacks ≠ [])
    (htimer : s.timers.tm.timer = [] ∨ ∃ w now, a = .evaluate w now) :
    s'.place v = s.place v ∧ a ≠ .submit v := by
  -- the thread that moves holds none afterwards
  have hmove : ∀ {t : Shutdown P} {w : ℕ} {p : Place}, t.place = s.place →
      ((t.move w p).place v).callbacks ≠ [] → p.callbacks = [] →
      (t.move w p).place v = s.place v ∧ v ≠ w := by
    intro t w p ht hheld hp
    by_cases hv : v = w
    · subst hv
      rw [move_place_self] at hheld
      exact absurd hp hheld
    · exact ⟨by rw [move_place_of_ne hv, ht], hv⟩
  cases hnext with
  | ran | scheduled | built | timed | eventAdded | eventDeleted | triggered | settled | stopped =>
    exact ⟨rfl, fun heq => by cases heq⟩
  | idled | left | woke | switched | stopTested =>
    exact ⟨(hmove rfl h rfl).1, fun heq => by cases heq⟩
  | listTested _ _ hi =>
    refine ⟨(hmove rfl h ?_).1, fun heq => by cases heq⟩
    rcases hi with rfl | rfl
    all_goals rfl
  | @listTaken w now probe =>
    refine ⟨(hmove rfl h ?_).1, fun heq => by cases heq⟩
    rcases htimer with hnil | ⟨w', now', heq⟩
    · exact expired_of_nil hnil now probe
    · cases heq
  | @submitted w cbs =>
    obtain ⟨hplace, hv⟩ := hmove rfl h rfl
    refine ⟨hplace, fun heq => hv ?_⟩
    cases heq
    rfl
  | readTimer heval _ hp =>
    obtain ⟨hfail, -, hgoOn⟩ := callbacks_eq_nil_of_eval heval
    refine ⟨(hmove rfl h ?_).1, fun heq => by cases heq⟩
    rcases hp with ⟨-, rfl⟩ | rfl
    · exact hgoOn _
    · exact hfail
  | readPending heval hp =>
    obtain ⟨hfail, -, hgoOn⟩ := callbacks_eq_nil_of_eval heval
    refine ⟨(hmove rfl h ?_).1, fun heq => by cases heq⟩
    rcases hp with ⟨-, rfl⟩ | rfl
    · exact hgoOn _
    · exact hfail
  | readQueue heval hp =>
    obtain ⟨hfail, hpass, -⟩ := callbacks_eq_nil_of_eval heval
    refine ⟨(hmove rfl h ?_).1, fun heq => by cases heq⟩
    rcases hp with ⟨-, rfl⟩ | rfl
    · exact hpass
    · exact hfail

/-- A worker that holds callbacks at the end of steps that begin without timers and add none has
held them all the time. -/
theorem callbacks_run (hnil : s.Holds .timer) (hrun : Transition.run next s as = some s')
    (hadds : ∀ a ∈ as, ∀ t : Shutdown P, t.adds a ≠ some .timer)
    (h : (s'.place v).callbacks ≠ []) : s'.place v = s.place v ∧ .submit v ∉ as := by
  induction as generalizing s with
  | nil =>
    obtain rfl := Option.some.inj hrun
    exact ⟨rfl, List.not_mem_nil⟩
  | cons a as ih =>
    obtain ⟨s₁, hnext, hrun⟩ := Transition.run_cons_eq_some.mp hrun
    have hstep := Next.of_next hnext
    have hnil₁ := timer_holds_next hnil (hadds a List.mem_cons_self s) hstep
    obtain ⟨hplace, hrest⟩ := ih hnil₁ hrun fun b hb => hadds b (List.mem_cons_of_mem _ hb)
    rw [hplace] at h
    obtain ⟨hplace₁, hne⟩ := callbacks_next hstep h (Or.inl hnil)
    refine ⟨hplace.trans hplace₁, fun hmem => ?_⟩
    rcases List.mem_cons.mp hmem with heq | hmem
    · exact hne heq.symm
    · exact hrest hmem

/-! ### The result -/

def isAddTimer : Step P → Bool
  | .op _ (.timer (.addTimer ..)) => true
  | _ => false

def isAddEvent : Step P → Bool
  | .op _ (.addEvent _) => true
  | _ => false

omit [LinearOrder P] in
theorem isAddTimer_of_adds {a : Step P} (h : s.adds a = some .timer) : isAddTimer a = true := by
  unfold adds at h
  split at h
  case h_3 => rfl
  case h_5 => simp at h
  all_goals cases h

omit [LinearOrder P] in
theorem isAddEvent_of_adds {a : Step P} (h : s.adds a = some .pending) : isAddEvent a = true := by
  unfold adds at h
  split at h
  case h_4 => rfl
  case h_5 => simp at h
  all_goals cases h

/-- The other threads do nothing to the evaluation that begins in `s`.  `mid₁` are their steps
between its first and its second read, `mid₂` those between the second and the last. -/
structure Undisturbed (s : Shutdown P) (mid₁ mid₂ : List (Step P)) : Prop where
  /-- After the read of the timers nobody adds one. -/
  timer : ∀ a ∈ mid₁ ++ mid₂, isAddTimer a = false
  /-- After the read of the count nobody adds an event. -/
  event : ∀ a ∈ mid₂, isAddEvent a = false
  /-- Who has taken callbacks schedules them before the last read. -/
  submit : ∀ v, (s.place v).callbacks ≠ [] → .submit v ∈ mid₁ ++ mid₂

omit [LinearOrder P] in
theorem Undisturbed.adds_ne_timer {mid₁ mid₂ : List (Step P)} (h : s.Undisturbed mid₁ mid₂)
    {a : Step P} (ha : a ∈ mid₁ ++ mid₂) (t : Shutdown P) : t.adds a ≠ some .timer := by
  intro hadds
  have hfalse := h.timer a ha
  rw [isAddTimer_of_adds hadds] at hfalse
  cases hfalse

omit [LinearOrder P] in
theorem Undisturbed.adds_ne_pending {mid₁ mid₂ : List (Step P)} (h : s.Undisturbed mid₁ mid₂)
    {a : Step P} (ha : a ∈ mid₂) (t : Shutdown P) : t.adds a ≠ some .pending := by
  intro hadds
  have hfalse := h.event a ha
  rw [isAddEvent_of_adds hadds] at hfalse
  cases hfalse

theorem Sound.run (h : s.Sound) (hrun : Transition.run Shutdown.next s as = some s') : s'.Sound :=
  Transition.invariant_of_run Sound (fun _ _ _ h hnext => h.next hnext) h hrun

omit [LinearOrder P] in
/-- No worker runs a task when `Scheduler::stopping` holds. -/
theorem Sound.active_eq_false (h : s.Sound) (hstopping : s.schedStopping = true) (v : ℕ) :
    (s.sched.pc v).active = false := by
  simp only [schedStopping, Bool.and_eq_true, decide_eq_true_eq] at hstopping
  obtain ⟨S, hS, hcard⟩ := h.counted
  have hempty : S = ∅ := by
    rw [hstopping.1.2] at hcard
    exact Finset.card_eq_zero.mp (by omega)
  have hv := hS v
  rw [hempty] at hv
  simpa using hv

/-- A worker that holds callbacks at the last read of an undisturbed evaluation has held them since
before the first one. -/
theorem Undisturbed.callbacks_eq_nil {s₀ s₁ s₂ s₃ : Shutdown P} {now now' : ℕ}
    {mid₁ mid₂ : List (Step P)} (hok : s₀.Undisturbed mid₁ mid₂)
    (hnext₁ : s₀.next (.evaluate w now) = some s₁)
    (hrun₁ : Transition.run next s₁ mid₁ = some s₂)
    (hnext₃ : s₂.next (.evaluate w now') = some s₃)
    (hrun₃ : Transition.run next s₃ mid₂ = some s) (hnil₁ : s₁.Holds .timer)
    (hnil₃ : s₃.Holds .timer) (v : ℕ) : (s.place v).callbacks = [] := by
  by_contra hheld
  obtain ⟨hheld₃, hsubmit₂⟩ := callbacks_run hnil₃ hrun₃
    (fun a ha => hok.adds_ne_timer (List.mem_append_right _ ha)) hheld
  rw [hheld₃] at hheld
  obtain ⟨hheld₂, -⟩ := callbacks_next (Next.of_next hnext₃) hheld (Or.inr ⟨w, now', rfl⟩)
  rw [hheld₂] at hheld
  obtain ⟨hheld₁, hsubmit₁⟩ := callbacks_run hnil₁ hrun₁
    (fun a ha => hok.adds_ne_timer (List.mem_append_left _ ha)) hheld
  rw [hheld₁] at hheld
  obtain ⟨hheld₀, -⟩ := callbacks_next (Next.of_next hnext₁) hheld (Or.inr ⟨w, now, rfl⟩)
  rw [hheld₀] at hheld
  -- so it has scheduled them in between
  rcases List.mem_append.mp (hok.submit v hheld) with hmem | hmem
  · exact hsubmit₁ hmem
  · exact hsubmit₂ hmem

/-- **An undisturbed evaluation of `stopping` is truthful.** -/
theorem truthful_of_evaluation {ws : Workers} {now₀ now now' : ℕ} {pre mid₁ mid₂ : List (Step P)}
    {s₀ : Shutdown P} (hpre : Transition.run next (init ws now₀) pre = some s₀)
    (hrun : Transition.run next s₀ (.evaluate w now :: mid₁ ++ .evaluate w now' :: mid₂) = some s)
    (hreads : ∀ t, .evaluate w t ∉ mid₁ ++ mid₂) (hlast : (s.place w).eval = some .queue)
    (htrue : s.schedStopping = true) (hok : s₀.Undisturbed mid₁ mid₂) : s.Truthful := by
  have hsound₀ := sound_of_run hpre
  -- the four parts of the run
  rw [Transition.run_append, Option.bind_eq_some_iff] at hrun
  obtain ⟨s₂, hrun₂, hrun⟩ := hrun
  obtain ⟨s₁, hnext₁, hrun₁⟩ := Transition.run_cons_eq_some.mp hrun₂
  obtain ⟨s₃, hnext₃, hrun₃⟩ := Transition.run_cons_eq_some.mp hrun
  have hreads₁ : ∀ t, .evaluate w t ∉ mid₁ := fun t ht => hreads t (List.mem_append_left _ ht)
  have hreads₂ : ∀ t, .evaluate w t ∉ mid₂ := fun t ht => hreads t (List.mem_append_right _ ht)
  have hsound₁ := hsound₀.next hnext₁
  have hsound₂ := hsound₁.run hrun₁
  have hsound₃ := hsound₂.next hnext₃
  have hsound := hsound₃.run hrun₃
  -- which read `w` makes next
  have hplace₃ := place_of_eval_run hrun₃ hlast (by decide) hreads₂
  have heval₂ : (s₂.place w).eval = some .pending := by
    have hlast₃ := hplace₃ ▸ hlast
    rcases eval_of_evaluate (Next.of_next hnext₃) hlast₃ with h | ⟨h, -⟩ | ⟨-, h⟩
    · cases h
    · cases h
    · exact h
  have hplace₁ := place_of_eval_run hrun₁ heval₂ (by decide) hreads₁
  have heval₀ : (s₀.place w).eval = some .timer := by
    have heval₁ := hplace₁ ▸ heval₂
    rcases eval_of_evaluate (Next.of_next hnext₁) heval₁ with h | ⟨-, h⟩ | ⟨h, -⟩
    · cases h
    · exact h
    · cases h
  -- no step adds to what has been read
  have hfact₀ : s₀.Fact w := by
    intro e he
    rw [Place.read_of_timer heval₀] at he
    cases he
  have hfact₁ : s₁.Fact w := hfact₀.next hsound₀ (fun e h => by cases h) hnext₁
  have hfact₂ : s₂.Fact w := by
    refine hfact₁.run hsound₁ hrun₁ heval₂ (by decide) hreads₁ fun a ha t e he => ?_
    rw [Place.read_of_pending heval₂] at he
    obtain rfl := List.mem_singleton.mp he
    exact hok.adds_ne_timer (List.mem_append_left _ ha) t
  have hfact₃ : s₃.Fact w := hfact₂.next hsound₂ (fun e h => by cases h) hnext₃
  have hfact : s.Fact w := by
    refine hfact₃.run hsound₃ hrun₃ hlast (by decide) hreads₂ fun a ha t e he => ?_
    rw [Place.read_of_queue hlast] at he
    rcases List.mem_cons.mp he with rfl | he
    · exact hok.adds_ne_timer (List.mem_append_right _ ha) t
    · obtain rfl := List.mem_singleton.mp he
      exact hok.adds_ne_pending ha t
  have hread := Place.read_of_queue hlast
  constructor
  case timer => exact hfact .timer (by rw [hread]; decide)
  case pending => exact hfact .pending (by rw [hread]; decide)
  case fibers =>
    simp only [schedStopping, Bool.and_eq_true, List.isEmpty_iff] at htrue
    exact htrue.2
  case active => exact hsound.active_eq_false htrue
  case callbacks =>
    have hnil₁ : s₁.Holds .timer := by
      refine hfact₁ _ ?_
      rw [← hplace₁, Place.read_of_pending heval₂]
      decide
    have hnil₃ : s₃.Holds .timer := by
      refine hfact₃ _ ?_
      rw [← hplace₃, hread]
      decide
    exact hok.callbacks_eq_nil hnext₁ hrun₁ hnext₃ hrun₃ hnil₁ hnil₃

/-- Two workers, and nobody else in the scheduler. -/
def twoWorkers : Workers where
  pool := [0, 1]
  caller := none
  nonempty := Or.inl (List.cons_ne_nil 0 [1])
  notMem _ h := nomatch h

/-- Worker 0 takes the callback of an expired timer while worker 1 is about to begin. -/
def callbackTaken : List (Step ℕ) :=
  [.op none (.timer (.addTimer 0 10 7 false 1)), .sched (.dequeue 0), .evaluate 0 2, .wake 0,
    .listTest 0 20, .stop, .sched (.dequeue 1), .listTake 0 9]

/-- Worker 0 schedules the callback and runs it. -/
def callbackRun : List (Step ℕ) :=
  [.submit 0, .idleOut 0, .sched (.dequeue 0), .sched (.prepare 0), .sched (.swapIn 0),
    .sched (.yield 0 .term), .sched (.swapOut 0), .sched (.count 0), .sched (.post 0)]

/-- Worker 1 evaluates while worker 0 runs the callback. -/
theorem truthful_of_evaluation_two_workers :
    ∃ s₀ s : Shutdown ℕ,
      Transition.run next (init twoWorkers 0) callbackTaken = some s₀ ∧
        Transition.run next s₀ (.evaluate 1 21 :: callbackRun ++ .evaluate 1 22 :: []) = some s ∧
        s.Truthful := by
  refine ⟨_, _, rfl, rfl, ?_⟩
  refine @truthful_of_evaluation ℕ _ _ 1 twoWorkers 0 21 22 callbackTaken callbackRun [] _ rfl rfl
    (fun t h => ?_) rfl rfl ?_
  · simp [callbackRun] at h
  constructor
  case timer => decide
  case event => exact fun a ha => absurd ha List.not_mem_nil
  case submit =>
    intro v hv
    -- only the two workers can hold anything
    have hsound := @sound_of_run ℕ _ _ callbackTaken twoWorkers 0 rfl
    have hmem : twoWorkers.mem v := by
      refine hsound.mem v fun hout => hv ?_
      rw [hout]
      rfl
    rcases hmem with hmem | hcaller
    · rcases List.mem_cons.mp hmem with rfl | hmem
      · exact List.mem_cons_self
      · obtain rfl := List.mem_singleton.mp hmem
        exact absurd rfl hv
    · cases hcaller

/-- Worker 1 finds nothing to do while worker 0 has a callback in its vector. -/
theorem not_truthful_callback_taken :
    ∃ s₀ s : Shutdown ℕ,
      Transition.run next (init twoWorkers 0) callbackTaken = some s₀ ∧
        Transition.run next s₀ (.evaluate 1 21 :: [] ++ .evaluate 1 22 :: []) = some s ∧
        (s.place 1).eval = some .queue ∧ s.schedStopping = true ∧ ¬ s.Truthful := by
  refine ⟨_, _, rfl, rfl, rfl, rfl, fun h => ?_⟩
  exact absurd (h.callbacks 0) (List.cons_ne_nil _ _)

end Muhui.Shutdown
