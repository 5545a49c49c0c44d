/-
  The emptiness test of `listExpiredCb`.

  `listExpiredCb` tests `m_timer.empty()` under the read lock, releases it, and looks at
  `*m_timer.begin()` under the write lock.  What another thread does in between is visible to the
  callers: a timer is `Outstanding` when it has been added and has neither been cancelled nor, if
  it is not recurring, been handed out.  `m_timer` holds the outstanding timers
  (`mem_timer_iff`), so the second section finds a timer exactly when one is outstanding.
-/
import Muhui.Timer.Delivery

namespace Muhui.TimerManager.System

variable {P κ : Type*} [LinearOrder P] {s s' : System P κ}

/-- According to the log the timer at `p` waits for its deadline. -/
def Outstanding (p : P) (log : List (P × TimerEvent κ)) : Prop :=
  ∃ recurring, (p, .added recurring) ∈ log ∧ (p, .cancelled) ∉ log ∧
    (recurring = false → ∀ cb, (p, .handed cb) ∉ log)

/-- `m_timer` holds the outstanding timers. -/
theorem Inv.mem_timer_iff (h : s.Inv) {p : P} : p ∈ s.tm.timer ↔ Outstanding p s.log := by
  obtain ⟨l, htells, hat⟩ := h.tells p
  simp only [Outstanding, ← mem_history (p := p)]
  cases l with
  | unborn =>
    have hnil : history p s.log = [] := htells
    simp [hnil, hat.2]
  | armed recurring =>
    obtain ⟨hborn, hnot, honce⟩ := htells
    exact iff_of_true hat.2.1 ⟨recurring, hborn.1, hnot, honce⟩
  | fired =>
    obtain ⟨hborn, -, cb, hcb⟩ := htells
    refine iff_of_false hat.2.1 ?_
    rintro ⟨recurring, hadded, -, honce⟩
    exact honce (hborn.2 recurring hadded) cb hcb
  | cancelled recurring =>
    obtain ⟨-, hcancelled, -⟩ := htells
    refine iff_of_false hat.2.1 ?_
    rintro ⟨-, -, hnot, -⟩
    exact hnot hcancelled

/-- `listExpiredCb` looks at the first timer of an empty set exactly when it has seen no rollover
and the set is empty. -/
theorem listExpiredCb_eq_error_iff {m : TimerManager P κ} {now : ℕ} {probe : P} :
    (∃ f, m.listExpiredCb now probe = .error f) ↔
      (m.detectClockRollover now).1 = false ∧ m.timer = [] := by
  constructor
  · rintro ⟨f, herr⟩
    refine ⟨?_, (listExpiredCb_error herr).2⟩
    by_contra hroll
    rw [Bool.not_eq_false] at hroll
    rw [listExpiredCb, hroll] at herr
    cases herr
  · rintro ⟨hroll, htimer⟩
    refine ⟨.derefEnd, ?_⟩
    have htimer' : (m.detectClockRollover now).2.timer = [] := htimer
    simp only [listExpiredCb, takeExpired, hroll, htimer']

/-- The side condition of a step: when the write-locked section of `listExpiredCb` starts and sees
no rollover, some timer is outstanding. -/
def StillOutstanding (s : System P κ) : Step P κ → Prop
  | .listTake now _ => (s.tm.detectClockRollover now).1 = true ∨ ∃ p, Outstanding p s.log
  | _ => True

/-- **Step lemma.** A step makes the program crash exactly when it is the write-locked section of
`listExpiredCb` and no timer is outstanding. -/
theorem Inv.crashed_next (h : s.Inv) {a : Step P κ} (hnext : s.next a = some s') :
    ¬(s'.crashed.isSome = true) ↔ s.StillOutstanding a := by
  have hfine {s' : System P κ} {a : Step P κ} (hcrashed : s'.crashed = s.crashed)
      (hgood : ¬(s.crashed.isSome = true)) (ha : s.StillOutstanding a) :
      ¬(s'.crashed.isSome = true) ↔ s.StillOutstanding a :=
    iff_of_true (by rw [hcrashed]; exact hgood) ha
  have hgood := not_crashed_of_next hnext
  cases a with
  | addTimer p ms cb recurring now =>
    obtain ⟨-, rfl⟩ := next_addTimer hnext
    exact hfine rfl hgood trivial
  | cancel p =>
    rcases h.cancel_next hnext with ⟨-, rfl⟩ | ⟨-, rfl⟩
    · exact hfine rfl hgood trivial
    · exact hfine rfl hgood trivial
  | refresh p now =>
    obtain ⟨-, rfl⟩ := next_refresh hnext
    exact hfine rfl hgood trivial
  | reset p ms from_now now seen =>
    obtain ⟨-, rfl⟩ := next_reset hnext
    exact hfine rfl hgood trivial
  | getNextTimer now =>
    obtain rfl := next_getNextTimer hnext
    exact hfine rfl hgood trivial
  | listTest now =>
    rcases next_listTest hnext with rfl | rfl
    · exact hfine rfl hgood trivial
    · exact hfine rfl hgood trivial
  | listTake now probe =>
    obtain ⟨-, -, ⟨f, herr, rfl⟩ | ⟨out, tm, hok, rfl⟩⟩ := next_listTake hnext
    · obtain ⟨hroll, htimer⟩ := listExpiredCb_eq_error_iff.mp ⟨f, herr⟩
      refine iff_of_false (by simp) ?_
      rintro (hroll' | ⟨p, hp⟩)
      · rw [hroll] at hroll'
        cases hroll'
      · rw [← h.mem_timer_iff, htimer] at hp
        cases hp
    · refine hfine rfl hgood ?_
      have hno : ¬∃ f, s.tm.listExpiredCb now probe = .error f := by simp [hok]
      rw [listExpiredCb_eq_error_iff, not_and_or, Bool.not_eq_false] at hno
      rcases hno with hroll | htimer
      · exact Or.inl hroll
      · obtain ⟨p, hp⟩ := List.exists_mem_of_ne_nil _ htimer
        exact Or.inr ⟨p, h.mem_timer_iff.mp hp⟩

/-- **`listExpiredCb` looks at the first timer of a set that has one** in exactly those runs in
which, whenever its write-locked section starts and sees no rollover, some timer is outstanding:
other threads have not cancelled or taken every timer since its emptiness test. -/
theorem not_crashed_iff {mem : P → Timer κ} {now : ℕ} {as : List (Step P κ)}
    (hrun : Transition.run next (init mem now) as = some s) :
    s.crashed = none ↔ Transition.StepsMeet next StillOutstanding (init mem now) as := by
  have hstop : ∀ (s : System P κ) a, s.crashed.isSome = true → s.next a = none := by
    intro s a hcrashed
    unfold System.next
    rw [if_pos hcrashed]
  rw [← Transition.not_bad_iff_stepsMeet Inv (fun s => s.crashed.isSome = true)
    (fun _ _ _ h hnext => h.next hnext) (fun _ _ _ h hnext => h.crashed_next hnext) hstop
    (inv_init mem now) (by simp [init]) hrun]
  simp

/-- Between the two sections of `listExpiredCb` another thread cancels the only timer. -/
theorem listExpiredCb_derefEnd :
    ∃ s : System ℕ ℕ,
      Transition.run next (init (fun _ => ⟨false, 0, 0, none⟩) 0)
        [.addTimer 1 10 7 false 0, .listTest 20, .cancel 1, .listTake 20 9] = some s ∧
      s.crashed = some .derefEnd :=
  ⟨_, rfl, rfl⟩

/-- Between the two sections of `listExpiredCb` another thread cancels one timer of two. -/
theorem not_crashed_two_timers :
    ∃ s : System ℕ ℕ,
      Transition.run next (init (fun _ => ⟨false, 0, 0, none⟩) 0)
        [.addTimer 1 10 7 false 0, .addTimer 2 15 8 false 0, .listTest 20, .cancel 1,
          .listTake 20 9] = some s ∧
      s.log = [(1, .added false), (2, .added false), (1, .cancelled), (2, .handed (some 8))] ∧
      Transition.StepsMeet next StillOutstanding (init (fun _ => ⟨false, 0, 0, none⟩) 0)
        [.addTimer 1 10 7 false 0, .addTimer 2 15 8 false 0, .listTest 20, .cancel 1,
          .listTake 20 9] :=
  ⟨_, rfl, rfl, (@not_crashed_iff ℕ ℕ _ _ (fun _ => ⟨false, 0, 0, none⟩) 0
    [.addTimer 1 10 7 false 0, .addTimer 2 15 8 false 0, .listTest 20, .cancel 1,
      .listTake 20 9] rfl).mp rfl⟩

end Muhui.TimerManager.System
