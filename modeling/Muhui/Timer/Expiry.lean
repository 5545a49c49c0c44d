/-
  `listExpiredCb` takes exactly the timers that are due.

  The cut is found in two steps: `lower_bound` of a probe with the deadline `now_ms`, whose place
  among the timers of the same deadline depends on its address, and a scan over what is left of
  these.  `take_expiredEnd` says that wherever the probe lands the two together stop behind the
  last timer with `m_next <= now_ms`.
-/
import Muhui.Timer.Operations

namespace Muhui.TimerManager

variable {P κ : Type*} [LinearOrder P] {m : TimerManager P κ} {p q : P}

/-! ### The cut -/

/-- The set holds its timers by deadline. -/
theorem Ordered.pairwise_next (h : m.Ordered) :
    m.timer.Pairwise fun a b => (m.mem a).next ≤ (m.mem b).next := by
  refine List.Pairwise.imp (fun {a b} hab => ?_) h
  rw [Timer.less_eq_true] at hab
  omega

omit [LinearOrder P] in
/-- The scan stops in front of a timer with another deadline. -/
theorem next_ne_of_drop_skipEqual {mem : P → Timer κ} {now : ℕ} {l rest : List P}
    (hdrop : l.drop (skipEqual mem now l) = q :: rest) : (mem q).next ≠ now := by
  induction l with
  | nil => cases hdrop
  | cons r l ih =>
    rw [skipEqual] at hdrop
    split_ifs at hdrop with hr
    · exact ih hdrop
    · obtain ⟨rfl, rfl⟩ := List.cons.inj hdrop
      exact hr

/-- From the lower bound of the probe on no deadline has passed. -/
theorem le_next_of_mem_drop_lowerBound (h : m.Ordered) {now : ℕ} {probe : P} {t : Timer κ}
    (hprobe : probe ∉ m.timer) (ht : t.next = now)
    (hq : q ∈ m.timer.drop (OrderedSet.lowerBound
      (Timer.less (Function.update m.mem probe t)) probe m.timer)) : now ≤ (m.mem q).next := by
  cases hdrop : m.timer.drop (OrderedSet.lowerBound
      (Timer.less (Function.update m.mem probe t)) probe m.timer) with
  | nil =>
    rw [hdrop] at hq
    cases hq
  | cons first rest =>
    have hne : first ≠ probe := by
      rintro rfl
      exact hprobe (List.mem_of_mem_drop (hdrop ▸ List.mem_cons_self))
    have hfirst : now ≤ (m.mem first).next := by
      have hlt := OrderedSet.not_lt_of_drop_lowerBound hdrop
      rw [Bool.eq_false_iff, ne_eq, Timer.less_eq_true, Function.update_self,
        Function.update_of_ne hne, not_or] at hlt
      omega
    have hsorted := h.pairwise_next.sublist (List.drop_sublist (OrderedSet.lowerBound
      (Timer.less (Function.update m.mem probe t)) probe m.timer) m.timer)
    rw [hdrop] at hq hsorted
    rcases List.mem_cons.mp hq with rfl | hq
    · exact hfirst
    · exact hfirst.trans ((List.pairwise_cons.mp hsorted).1 q hq)

/-- Without a rollover every timer that is left is not yet due. -/
theorem lt_next_of_mem_drop_expiredEnd (h : m.Ordered) {now : ℕ} {probe : P}
    (hprobe : probe ∉ m.timer) (hq : q ∈ m.timer.drop (m.expiredEnd false now probe)) :
    now < (m.mem q).next := by
  simp only [expiredEnd, Bool.false_eq_true, if_false] at hq
  rw [← List.drop_drop] at hq
  set bound := m.timer.drop (OrderedSet.lowerBound (Timer.less (Function.update m.mem probe
    { recurring := false, ms := 0, next := now, cb := none })) probe m.timer) with hbound
  have hle : ∀ r ∈ bound, now ≤ (m.mem r).next := fun r hr =>
    le_next_of_mem_drop_lowerBound h hprobe rfl (hbound ▸ hr)
  have hsorted : bound.Pairwise fun a b => (m.mem a).next ≤ (m.mem b).next :=
    h.pairwise_next.sublist (List.drop_sublist _ _)
  cases hdrop : bound.drop (skipEqual m.mem now bound) with
  | nil =>
    rw [hdrop] at hq
    cases hq
  | cons first rest =>
    -- the scan has stopped at `first`, so its deadline is later than `now` and not `now` itself
    have hfirst : now < (m.mem first).next :=
      lt_of_le_of_ne (hle first (List.mem_of_mem_drop (hdrop ▸ List.mem_cons_self)))
        (next_ne_of_drop_skipEqual hdrop).symm
    have hrest := hsorted.sublist (List.drop_sublist (skipEqual m.mem now bound) bound)
    rw [hdrop] at hq hrest
    rcases List.mem_cons.mp hq with rfl | hq
    · exact hfirst
    · exact hfirst.trans_le ((List.pairwise_cons.mp hrest).1 q hq)

/-- The timers that are due at clock reading `now`: all of them when the clock was set back. -/
def due (m : TimerManager P κ) (rollover : Bool) (now : ℕ) : List P :=
  m.timer.filter fun q => rollover || decide ((m.mem q).next ≤ now)

/-- The timers that are not due. -/
def undue (m : TimerManager P κ) (rollover : Bool) (now : ℕ) : List P :=
  m.timer.filter fun q => !(rollover || decide ((m.mem q).next ≤ now))

/-- A test that holds up to a position and fails from there on is decided by the position. -/
theorem filter_eq_take {α : Type*} {f : α → Bool} {l : List α} {n : ℕ}
    (htake : ∀ a ∈ l.take n, f a = true) (hdrop : ∀ a ∈ l.drop n, f a = false) :
    l.filter f = l.take n ∧ l.filter (fun a => !f a) = l.drop n := by
  have htake' : ∀ a ∈ l.take n, ¬(!f a) = true := fun a ha => by simp [htake a ha]
  have hdrop' : ∀ a ∈ l.drop n, ¬f a = true := fun a ha => by simp [hdrop a ha]
  constructor
  · conv_lhs => rw [← List.take_append_drop n l]
    rw [List.filter_append, List.filter_eq_self.mpr htake, List.filter_eq_nil_iff.mpr hdrop',
      List.append_nil]
  · conv_lhs => rw [← List.take_append_drop n l]
    rw [List.filter_append, List.filter_eq_nil_iff.mpr htake', List.nil_append,
      List.filter_eq_self.mpr fun a ha => by simp [hdrop a ha]]

/-- **The cut.** Before the iterator of `listExpiredCb` stand the timers that are due, from it on
the others. -/
theorem take_expiredEnd (h : m.Ordered) (now : ℕ) {probe : P} (hprobe : probe ∉ m.timer)
    (rollover : Bool) :
    m.due rollover now = m.timer.take (m.expiredEnd rollover now probe) ∧
      m.undue rollover now = m.timer.drop (m.expiredEnd rollover now probe) := by
  refine filter_eq_take (fun q hq => ?_) fun q hq => ?_
  · cases rollover with
    | true => rfl
    | false => simpa using next_le_of_mem_take_expiredEnd hprobe hq
  · cases rollover with
    | true => simp [expiredEnd] at hq
    | false => simpa using lt_next_of_mem_drop_expiredEnd h hprobe hq

/-! ### The whole call -/

/-- `TimerManager::listExpiredCb` from the emptiness test to the end, when no other thread gets
the lock between its two sections. -/
def listExpired (m : TimerManager P κ) (now : ℕ) (probe : P) :
    Except IteratorFault (List (P × Option κ) × TimerManager P κ) :=
  if m.timer.isEmpty then .ok ([], m) else m.listExpiredCb now probe

/-- Under the lock a set that is not empty is emptied up to the cut.  The early return is no
exception: it is taken only when nothing is due. -/
theorem takeExpired_of_ne_nil (h : m.Ordered) (hne : m.timer ≠ []) {now : ℕ} {probe : P}
    (hprobe : probe ∉ m.timer) (rollover : Bool) :
    m.takeExpired rollover now probe =
      .ok (expireLoop now (m.due rollover now) { m with timer := m.undue rollover now }) := by
  obtain ⟨hdue, hundue⟩ := take_expiredEnd h now hprobe rollover
  simp only [takeExpired, ← hdue, ← hundue]
  cases rollover with
  | true => rfl
  | false =>
    cases htimer : m.timer with
    | nil => exact absurd htimer hne
    | cons first rest =>
      dsimp only
      split_ifs with hfirst
      · have hsorted := h.pairwise_next
        rw [htimer] at hsorted
        have hlate : ∀ q ∈ m.timer, ¬(m.mem q).next ≤ now := by
          intro q hq
          rw [htimer] at hq
          rcases List.mem_cons.mp hq with rfl | hq
          · omega
          · have hle := (List.pairwise_cons.mp hsorted).1 q hq
            omega
        have hnone : m.due false now = [] :=
          List.filter_eq_nil_iff.mpr fun q hq => by simpa using hlate q hq
        have hall : m.undue false now = m.timer :=
          List.filter_eq_self.mpr fun q hq => by simpa using hlate q hq
        rw [hnone, hall, expireLoop]
      · rfl

/-- What a call of `listExpiredCb` at clock reading `now` is to do: hand out the callbacks of the
due timers by deadline, arm the recurring ones of them anew and empty the callbacks of the others,
and leave the rest of the timers alone. -/
structure TakesDue (m : TimerManager P κ) (rollover : Bool) (now : ℕ) (out : List (P × Option κ))
    (m' : TimerManager P κ) : Prop where
  out_eq : out = (m.due rollover now).map fun q => (q, (m.mem q).cb)
  by_deadline : out.Pairwise fun a b => (m.mem a.1).next ≤ (m.mem b.1).next
  ordered : m'.Ordered
  nodup : m'.timer.Nodup
  mem_iff : ∀ q, q ∈ m'.timer ↔
    q ∈ m.timer ∧ (q ∉ m.due rollover now ∨ (m.mem q).recurring = true)
  armed : ∀ q ∈ m.due rollover now, (m.mem q).recurring = true →
    m'.mem q = { m.mem q with next := addU64 now (m.mem q).ms }
  emptied : ∀ q ∈ m.due rollover now, (m.mem q).recurring = false →
    m'.mem q = { m.mem q with cb := none }
  kept : ∀ q ∉ m.due rollover now, m'.mem q = m.mem q

omit [LinearOrder P] in
theorem mem_undue {rollover : Bool} {now : ℕ} :
    q ∈ m.undue rollover now ↔ q ∈ m.timer ∧ q ∉ m.due rollover now := by
  unfold undue due
  simp only [List.mem_filter]
  cases rollover || decide ((m.mem q).next ≤ now) <;> simp

/-- The loop over the due timers does what the call is to do. -/
theorem takesDue_expireLoop (h : m.Ordered) (rollover : Bool) (now : ℕ) :
    TakesDue m rollover now
      (expireLoop now (m.due rollover now) { m with timer := m.undue rollover now }).1
      (expireLoop now (m.due rollover now) { m with timer := m.undue rollover now }).2 := by
  have hundue : Ordered { m with timer := m.undue rollover now } :=
    h.of_sublist List.filter_sublist fun _ _ => rfl
  have hnodup : (m.due rollover now).Nodup := h.nodup.filter _
  have hout : ∀ q ∈ m.due rollover now, q ∉ m.undue rollover now := fun q hq hq' =>
    (mem_undue.mp hq').2 hq
  obtain ⟨hcbs, hexp⟩ := expireLoop_spec now hundue hnodup hout
  have hmem := fun q => @expireLoop_mem P κ _ { m with timer := m.undue rollover now } q now _
    hnodup
  refine ⟨hcbs, ?_, hexp.ordered, hexp.ordered.nodup, fun q => ?_, fun q hq hrec => ?_,
    fun q hq hrec => ?_, fun q hq => ?_⟩
  · rw [hcbs, List.pairwise_map]
    exact h.pairwise_next.sublist List.filter_sublist
  · rw [hexp.mem_iff]
    have hdue : q ∈ m.due rollover now → q ∈ m.timer := List.mem_of_mem_filter
    have hmem_undue := @mem_undue P κ m q rollover now
    tauto
  · rw [hmem q, if_pos hq, expired, if_pos hrec]
  · rw [hmem q, if_pos hq, expired, if_neg (by simp [hrec])]
  · rw [hmem q, if_neg hq]

/-- Whenever the section under the lock gets through it does what the call is to do. -/
theorem takesDue_of_listExpiredCb (h : m.Ordered) {now : ℕ} {probe : P}
    (hprobe : probe ∉ m.timer) {out : List (P × Option κ)} {m' : TimerManager P κ}
    (hok : m.listExpiredCb now probe = .ok (out, m')) :
    TakesDue m (m.detectClockRollover now).1 now out m' := by
  -- the rollover test writes `m_previousTime` only
  set m₁ := (m.detectClockRollover now).2 with hm₁
  have htakes := takesDue_expireLoop (m := m₁) h (m.detectClockRollover now).1 now
  have hloop : (out, m') = expireLoop now (m₁.due (m.detectClockRollover now).1 now)
      { m₁ with timer := m₁.undue (m.detectClockRollover now).1 now } := by
    by_cases hne : m₁.timer = []
    · unfold listExpiredCb at hok
      rw [← hm₁] at hok
      simp only [takeExpired, hne] at hok
      rw [due, undue, hne]
      cases hroll : (m.detectClockRollover now).1 with
      | true =>
        rw [hroll] at hok
        simpa using (Except.ok.inj hok).symm
      | false =>
        rw [hroll] at hok
        cases hok
    · rw [← Except.ok.inj (hok.symm.trans
        (takeExpired_of_ne_nil (m := m₁) h hne hprobe (m.detectClockRollover now).1))]
  rw [← hloop] at htakes
  exact ⟨htakes.out_eq, htakes.by_deadline, htakes.ordered, htakes.nodup, htakes.mem_iff,
    htakes.armed, htakes.emptied, htakes.kept⟩

/-- **`listExpiredCb` takes exactly the due timers**, whatever the address of its probe. -/
theorem listExpired_takes_due (h : m.Ordered) {probe : P} (hprobe : probe ∉ m.timer) (now : ℕ) :
    ∃ out m', m.listExpired now probe = .ok (out, m') ∧
      TakesDue m (m.detectClockRollover now).1 now out m' := by
  unfold listExpired
  split_ifs with hempty
  · have hnil : m.timer = [] := List.isEmpty_iff.mp hempty
    have hdue : m.due (m.detectClockRollover now).1 now = [] := by rw [due, hnil, List.filter_nil]
    refine ⟨[], m, rfl, ?_⟩
    constructor <;> simp [hdue, hnil, h]
  · have hne : m.timer ≠ [] := fun hnil => hempty (List.isEmpty_iff.mpr hnil)
    have hok : m.listExpiredCb now probe = .ok _ :=
      takeExpired_of_ne_nil (m := (m.detectClockRollover now).2) h hne hprobe _
    exact ⟨_, _, hok, takesDue_of_listExpiredCb h hprobe hok⟩

/-- Four timers, three of them with the deadline the clock reads, and a probe whose address lies
between theirs. -/
theorem listExpired_takes_due_equal_deadlines :
    ∃ m : TimerManager ℕ ℕ, m.timer = [1, 2, 4, 6] ∧
      (m.due (m.detectClockRollover 5).1 5 = [1, 2, 4]) ∧
      ∃ out m', m.listExpired 5 3 = .ok (out, m') ∧
        TakesDue m (m.detectClockRollover 5).1 5 out m' :=
  ⟨{ mem := fun p => { recurring := p == 2, ms := 7, next := if p = 6 then 9 else 5, cb := some p }
     timer := [1, 2, 4, 6], tickled := false, previousTime := 4 }, rfl, by decide,
    listExpired_takes_due (by unfold Ordered OrderedSet.Sorted; decide) (by decide) 5⟩

end Muhui.TimerManager
