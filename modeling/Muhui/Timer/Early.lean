/-
  Timers and the clock: when a callback may be handed out early.

  `Clocked` runs the sections of `TimerManager.System` and remembers for each timer the clock
  reading its current period is counted from, as a number without a word size, and for each
  callback handed out what `OnTime` is about.  A deadline is computed in four places (the
  constructor, `refresh`, `reset` and the re-arming of `listExpiredCb`), always as a sum of two
  `uint64_t`.  `Counted` is the invariant that the deadline is that sum without a wrap; `NoWrap`
  says of a step that the deadlines it computes fit into 64 bits.
-/
import Muhui.Timer.Delivery
import Muhui.Timer.Expiry
import Muhui.Timer.Wakeup

namespace Muhui

variable {P κ : Type*}

namespace TimerManager

/-- A callback that `listExpiredCb` has handed out. -/
structure Handout (P : Type*) where
  /-- The timer it belongs to. -/
  timer : P
  /-- The clock reading that the period was counted from. -/
  start : ℕ
  /-- `m_ms` -/
  ms : ℕ
  /-- `now_ms` of the call. -/
  now : ℕ
  /-- What `detectClockRollover` has reported. -/
  rollover : Bool
  deriving DecidableEq

/-- The period was over, unless the clock was set back. -/
def Handout.OnTime (d : Handout P) : Prop := d.rollover = false → d.start + d.ms ≤ d.now

instance (d : Handout P) : Decidable d.OnTime := inferInstanceAs (Decidable (_ → _))

/-- A `TimerManager` in use, with the clock readings that periods are counted from. -/
structure Clocked (P κ : Type*) where
  sys : System P κ
  start : P → ℕ
  handouts : List (Handout P)

/-- The deadline of every timer is a period after the reading it is counted from. -/
def Counted (start : P → ℕ) (m : TimerManager P κ) : Prop :=
  ∀ p ∈ m.timer, (m.mem p).next = start p + (m.mem p).ms ∧ (m.mem p).next < 2 ^ 64

theorem Counted.congr {start start' : P → ℕ} {m m' : TimerManager P κ} (h : Counted start m)
    (hkeep : ∀ q ∈ m'.timer, q ∈ m.timer ∧ start' q = start q ∧ m'.mem q = m.mem q ∨
      (m'.mem q).next = start' q + (m'.mem q).ms ∧ (m'.mem q).next < 2 ^ 64) :
    Counted start' m' := by
  intro q hq
  rcases hkeep q hq with ⟨hmem, hstart, heq⟩ | hnew
  · rw [hstart, heq]
    exact h q hmem
  · exact hnew

namespace Clocked

variable [LinearOrder P]

def init (mem : P → Timer κ) (now : ℕ) : Clocked P κ :=
  { sys := .init mem now, start := fun _ => 0, handouts := [] }

/-- The timers whose callbacks `listExpiredCb` hands out. -/
def taken (m : TimerManager P κ) (now : ℕ) (probe : P) : List P :=
  match m.listExpiredCb now probe with
  | .error _ => []
  | .ok (out, _) => out.map Prod.fst

/-- From which clock reading the period of `q` is counted after a step.  `reset` without
`from_now` counts the new period from where the old one began. -/
def startAfter (s : Clocked P κ) (a : Step P κ) (q : P) : ℕ :=
  match a with
  | .addTimer p _ _ _ now => if q = p then now else s.start q
  | .refresh p now => if q = p ∧ (s.sys.tm.refresh p now).1 then now else s.start q
  | .reset p ms from_now now seen =>
    if q = p ∧ (s.sys.tm.reset p ms from_now now seen).1 ∧ from_now then now else s.start q
  | .listTake now probe =>
    if q ∈ taken s.sys.tm now probe ∧ (s.sys.tm.mem q).recurring then now else s.start q
  | _ => s.start q

/-- What a step hands out. -/
def handoutsOf (s : Clocked P κ) : Step P κ → List (Handout P)
  | .listTake now probe =>
    (taken s.sys.tm now probe).map fun q =>
      { timer := q, start := s.start q, ms := (s.sys.tm.mem q).ms, now := now
        rollover := (s.sys.tm.detectClockRollover now).1 }
  | _ => []

def next (s : Clocked P κ) (a : Step P κ) : Option (Clocked P κ) :=
  (s.sys.next a).map fun sys =>
    { sys := sys, start := s.startAfter a, handouts := s.handouts ++ s.handoutsOf a }

/-- The deadlines that the step computes fit into 64 bits. -/
def NoWrap (s : Clocked P κ) : Step P κ → Prop
  | .addTimer _ ms _ _ now => now + ms < 2 ^ 64
  | .refresh p now => p ∈ s.sys.tm.timer → now + (s.sys.tm.mem p).ms < 2 ^ 64
  | .reset p ms from_now now seen =>
    p ∈ s.sys.tm.timer → ¬(ms = seen ∧ from_now = false) →
      (if from_now then now else s.start p) + ms < 2 ^ 64
  | .listTake now _ =>
    ∀ q ∈ s.sys.tm.due (s.sys.tm.detectClockRollover now).1 now,
      (s.sys.tm.mem q).recurring = true → now + (s.sys.tm.mem q).ms < 2 ^ 64
  | _ => True

instance (s : Clocked P κ) : (a : Step P κ) → Decidable (s.NoWrap a)
  | .addTimer _ _ _ _ _ => inferInstanceAs (Decidable (_ < _))
  | .refresh _ _ | .reset _ _ _ _ _ => inferInstanceAs (Decidable (_ → _))
  | .listTake _ _ => inferInstanceAs (Decidable (∀ q ∈ _, _ → _))
  | .cancel _ | .getNextTimer _ | .listTest _ => inferInstanceAs (Decidable True)

/-- Deadlines are counted right, and what was handed out was on time. -/
structure Inv (s : Clocked P κ) : Prop where
  sys : s.sys.Inv
  counted : Counted s.start s.sys.tm
  onTime : ∀ d ∈ s.handouts, d.OnTime

variable {s s' : Clocked P κ}

/-! ### One step -/

theorem counted_addTimer (h : s.Inv) {p : P} {ms now : ℕ} (cb : Option κ) (recurring : Bool)
    (hwrap : now + ms < 2 ^ 64) :
    Counted (fun q => if q = p then now else s.start q)
      (s.sys.tm.addTimer p ms cb recurring now).2 := by
  refine h.counted.congr fun q hq => ?_
  rw [addTimer_timer] at hq
  rw [addTimer_mem]
  by_cases hqp : q = p
  · right
    rw [hqp, Function.update_self, if_pos rfl, addU64_of_lt hwrap]
    exact ⟨rfl, hwrap⟩
  · left
    rw [Function.update_of_ne hqp, if_neg hqp]
    exact ⟨hq.resolve_left hqp, rfl, rfl⟩

theorem counted_cancel (h : s.Inv) (p : P) :
    Counted s.start
      { s.sys.tm.store p { s.sys.tm.mem p with cb := none } with
        timer := s.sys.tm.timer.erase p } := by
  refine h.counted.congr fun q hq => Or.inl ?_
  obtain ⟨hqp, hq⟩ := h.sys.ordered.nodup.mem_erase_iff.mp hq
  exact ⟨hq, rfl, store_mem_of_ne hqp _⟩

theorem counted_refresh_of_mem (h : s.Inv) {p : P} (hp : p ∈ s.sys.tm.timer) {now : ℕ}
    (hwrap : now + (s.sys.tm.mem p).ms < 2 ^ 64) :
    Counted (fun q => if q = p ∧ (s.sys.tm.refresh p now).1 = true then now else s.start q)
      (s.sys.tm.refresh p now).2 := by
  obtain ⟨hadded, hcb, -⟩ := h.sys.armed_of_mem hp
  have hrefresh := refresh_of_mem h.sys.ordered hp (by rw [hcb, hadded]) now
  have hsame := refresh_sameLife h.sys.ordered hp now
  refine h.counted.congr fun q hq => ?_
  rw [hsame.mem_iff] at hq
  rw [hrefresh, insert_mem, store_mem]
  by_cases hqp : q = p
  · right
    rw [if_pos hqp, if_pos ⟨hqp, rfl⟩]
    exact ⟨addU64_of_lt hwrap, (addU64_of_lt hwrap).symm ▸ hwrap⟩
  · left
    rw [if_neg hqp, if_neg fun hand => hqp hand.1]
    exact ⟨hq, rfl, rfl⟩

/-- A timer that is not in the set is not refreshed. -/
theorem counted_refresh (h : s.Inv) {p : P} (hadded : (s.sys.added p).isSome) {now : ℕ}
    (hwrap : s.NoWrap (.refresh p now)) :
    Counted (s.startAfter (.refresh p now)) (s.sys.tm.refresh p now).2 := by
  by_cases hp : p ∈ s.sys.tm.timer
  · exact counted_refresh_of_mem h hp (hwrap hp)
  · have hgive := refresh_of_cb_none (h.sys.cb_of_not_mem hadded hp) now
    have hstart : s.startAfter (.refresh p now) = s.start := by
      ext q
      simp [startAfter, hgive]
    rw [hstart, hgive]
    exact h.counted

theorem counted_reset_of_mem (h : s.Inv) {p : P} (hp : p ∈ s.sys.tm.timer) {ms now seen : ℕ}
    {from_now : Bool} (hseen : ¬(ms = seen ∧ from_now = false))
    (hwrap : (if from_now then now else s.start p) + ms < 2 ^ 64) :
    Counted (fun q => if q = p ∧ (s.sys.tm.reset p ms from_now now seen).1 = true ∧
        from_now = true then now else s.start q)
      (s.sys.tm.reset p ms from_now now seen).2.2 := by
  obtain ⟨hadded, hcb, -⟩ := h.sys.armed_of_mem hp
  have hreset := reset_of_mem h.sys.ordered hp (by rw [hcb, hadded]) hseen now
  have hsame := reset_sameLife h.sys.ordered hp ms from_now now seen
  -- `m_next - m_ms` is the reading that the old period was counted from
  have hstart : subU64 (s.sys.tm.mem p).next (s.sys.tm.mem p).ms = s.start p := by
    obtain ⟨hnext, hlt⟩ := h.counted p hp
    rw [subU64_of_le (by omega) hlt]
    omega
  refine h.counted.congr fun q hq => ?_
  rw [hsame.mem_iff] at hq
  rw [hreset, addTimerLocked_mem, store_mem]
  by_cases hqp : q = p
  · right
    subst hqp
    rw [if_pos rfl]
    simp only [true_and, resetTo, hstart]
    rw [addU64_of_lt hwrap]
    exact ⟨rfl, hwrap⟩
  · left
    rw [if_neg hqp, if_neg fun hand => hqp hand.1]
    exact ⟨hq, rfl, rfl⟩

/-- Nor is it reset, and neither is a timer that keeps its period. -/
theorem counted_reset (h : s.Inv) {p : P} (hadded : (s.sys.added p).isSome) {ms now seen : ℕ}
    {from_now : Bool} (hwrap : s.NoWrap (.reset p ms from_now now seen)) :
    Counted (s.startAfter (.reset p ms from_now now seen))
      (s.sys.tm.reset p ms from_now now seen).2.2 := by
  by_cases heffect : p ∈ s.sys.tm.timer ∧ ¬(ms = seen ∧ from_now = false)
  · exact counted_reset_of_mem h heffect.1 heffect.2 (hwrap heffect.1 heffect.2)
  · have hgive : s.sys.tm.reset p ms from_now now seen = (false, false, s.sys.tm) := by
      by_cases hseen : ms = seen ∧ from_now = false
      · exact reset_of_same hseen now
      · have hp : p ∉ s.sys.tm.timer := fun hp => heffect ⟨hp, hseen⟩
        exact reset_of_cb_none (h.sys.cb_of_not_mem hadded hp) ms from_now now seen
    have hstart : s.startAfter (.reset p ms from_now now seen) = s.start := by
      ext q
      simp [startAfter, hgive]
    rw [hstart, hgive]
    exact h.counted

/-- What is handed out is what is due. -/
theorem taken_eq_due (h : s.Inv) {now : ℕ} {probe : P} (hprobe : probe ∉ s.sys.tm.timer)
    {out : List (P × Option κ)} {m' : TimerManager P κ}
    (hok : s.sys.tm.listExpiredCb now probe = .ok (out, m')) :
    taken s.sys.tm now probe = s.sys.tm.due (s.sys.tm.detectClockRollover now).1 now := by
  have htakes := takesDue_of_listExpiredCb h.sys.ordered hprobe hok
  simp only [taken, hok, htakes.out_eq, List.map_map]
  exact List.map_id _

theorem counted_listExpiredCb (h : s.Inv) {now : ℕ} {probe : P}
    (hprobe : probe ∉ s.sys.tm.timer) {out : List (P × Option κ)} {m' : TimerManager P κ}
    (hok : s.sys.tm.listExpiredCb now probe = .ok (out, m'))
    (hwrap : ∀ q ∈ s.sys.tm.due (s.sys.tm.detectClockRollover now).1 now,
      (s.sys.tm.mem q).recurring = true → now + (s.sys.tm.mem q).ms < 2 ^ 64) :
    Counted (fun q => if q ∈ taken s.sys.tm now probe ∧ (s.sys.tm.mem q).recurring = true then now
      else s.start q) m' := by
  have htakes := takesDue_of_listExpiredCb h.sys.ordered hprobe hok
  rw [taken_eq_due h hprobe hok]
  refine h.counted.congr fun q hq => ?_
  obtain ⟨hq, hstays⟩ := (htakes.mem_iff q).mp hq
  by_cases hdue : q ∈ s.sys.tm.due (s.sys.tm.detectClockRollover now).1 now
  · right
    have hrec := hstays.resolve_left (not_not.mpr hdue)
    rw [if_pos ⟨hdue, hrec⟩, htakes.armed q hdue hrec]
    have hlt := hwrap q hdue hrec
    exact ⟨addU64_of_lt hlt, (addU64_of_lt hlt).symm ▸ hlt⟩
  · left
    rw [if_neg fun hand => hdue hand.1]
    exact ⟨hq, rfl, htakes.kept q hdue⟩

/-- A due timer whose deadline is counted right is on time. -/
theorem onTime_of_due (h : s.Inv) {now : ℕ} {q : P}
    (hq : q ∈ s.sys.tm.due (s.sys.tm.detectClockRollover now).1 now) :
    Handout.OnTime { timer := q, start := s.start q, ms := (s.sys.tm.mem q).ms, now := now
                     rollover := (s.sys.tm.detectClockRollover now).1 } := by
  intro hroll
  obtain ⟨hmem, hdue⟩ := List.mem_filter.mp hq
  dsimp only at hroll ⊢
  rw [hroll, Bool.false_or, decide_eq_true_iff] at hdue
  rw [← (h.counted q hmem).1]
  exact hdue

theorem handoutsOf_onTime (h : s.Inv) {a : Step P κ} {sys : System P κ}
    (hnext : s.sys.next a = some sys) : ∀ d ∈ s.handoutsOf a, d.OnTime := by
  intro d hd
  cases a with
  | listTake now probe =>
    obtain ⟨q, hq, rfl⟩ := List.mem_map.mp hd
    obtain ⟨-, hadded, -⟩ := System.next_listTake hnext
    have hprobe : probe ∉ s.sys.tm.timer := h.sys.not_mem_of_added_none hadded
    cases hlist : s.sys.tm.listExpiredCb now probe with
    | error f => simp [taken, hlist] at hq
    | ok r =>
      rw [taken_eq_due h hprobe hlist] at hq
      exact onTime_of_due h hq
  | addTimer | cancel | refresh | reset | getNextTimer | listTest => cases hd

/-- A step whose deadlines fit keeps every deadline counted right. -/
theorem counted_next (h : s.Inv) {a : Step P κ} (hwrap : s.NoWrap a) {sys : System P κ}
    (hnext : s.sys.next a = some sys) : Counted (s.startAfter a) sys.tm := by
  cases a with
  | addTimer p ms cb recurring now =>
    obtain ⟨-, rfl⟩ := System.next_addTimer hnext
    exact counted_addTimer h (some cb) recurring hwrap
  | cancel p =>
    rcases h.sys.cancel_next hnext with ⟨-, rfl⟩ | ⟨-, rfl⟩
    · exact counted_cancel h p
    · exact h.counted
  | refresh p now =>
    obtain ⟨hadded, rfl⟩ := System.next_refresh hnext
    exact counted_refresh h hadded hwrap
  | reset p ms from_now now seen =>
    obtain ⟨hadded, rfl⟩ := System.next_reset hnext
    exact counted_reset h hadded hwrap
  | getNextTimer now =>
    obtain rfl := System.next_getNextTimer hnext
    rw [getNextTimer_snd]
    exact h.counted
  | listTest now =>
    rcases System.next_listTest hnext with rfl | rfl
    · exact h.counted
    · exact h.counted
  | listTake now probe =>
    obtain ⟨-, hadded, ⟨f, herr, rfl⟩ | ⟨out, tm, hok, rfl⟩⟩ := System.next_listTake hnext
    · have hstart : s.startAfter (.listTake now probe) = s.start := by
        ext q
        simp [startAfter, taken, herr]
      rw [hstart]
      exact h.counted
    · exact counted_listExpiredCb h (h.sys.not_mem_of_added_none hadded) hok hwrap

/-- **Step lemma.** -/
theorem Inv.next (h : s.Inv) {a : Step P κ} (hwrap : s.NoWrap a) (hnext : s.next a = some s') :
    s'.Inv := by
  obtain ⟨sys, hsys, rfl⟩ := Option.map_eq_some_iff.mp hnext
  refine ⟨h.sys.next hsys, counted_next h hwrap hsys, fun d hd => ?_⟩
  rcases List.mem_append.mp hd with hd | hd
  · exact h.onTime d hd
  · exact handoutsOf_onTime h hsys d hd

theorem inv_init (mem : P → Timer κ) (now : ℕ) : (init mem now).Inv where
  sys := System.inv_init mem now
  counted _ hp := absurd hp List.not_mem_nil
  onTime _ hd := absurd hd List.not_mem_nil

/-! ### Runs -/

/-- **Timers never fire early** as long as no deadline wraps around. -/
theorem onTime_of_run {mem : P → Timer κ} {now : ℕ} {as : List (Step P κ)}
    (hrun : Transition.run next (init mem now) as = some s)
    (hwrap : Transition.StepsMeet next NoWrap (init mem now) as) :
    ∀ d ∈ s.handouts, d.OnTime :=
  (Transition.invariant_of_stepsMeet Inv (fun _ _ _ h hok hnext => h.next hok hnext)
    (inv_init mem now) hwrap hrun).onTime

/-- A recurring timer that is reset while it runs, a refresh, and two deliveries. -/
theorem onTime_of_run_recurring :
    ∃ s : Clocked ℕ ℕ,
      Transition.run next (init (fun _ => ⟨false, 0, 0, none⟩) 0)
        [.addTimer 1 10 7 true 5, .addTimer 2 30 8 false 5, .reset 1 20 false 9 10, .refresh 2 6,
          .listTest 40, .listTake 40 9] = some s ∧
      s.handouts = [⟨1, 5, 20, 40, false⟩, ⟨2, 6, 30, 40, false⟩] ∧
      ∀ d ∈ s.handouts, d.OnTime := by
  refine ⟨_, rfl, by decide, @onTime_of_run ℕ ℕ _ _ (fun _ => ⟨false, 0, 0, none⟩) 0
    [.addTimer 1 10 7 true 5, .addTimer 2 30 8 false 5, .reset 1 20 false 9 10, .refresh 2 6,
      .listTest 40, .listTake 40 9] rfl ?_⟩
  decide

/-- `nanosleep` of 2147484 s hands `addTimer` an `int` that has gone negative: the deadline wraps
around and has passed before the timer is armed. -/
theorem not_onTime_of_wrapped_deadline :
    ∃ s : Clocked ℕ ℕ,
      Transition.run next (init (fun _ => ⟨false, 0, 0, none⟩) 1700000000000)
        [.addTimer 1 (2 ^ 64 - 2147483296) 7 false 1700000000000, .listTest 1700000000000,
          .listTake 1700000000000 9] = some s ∧
      s.handouts = [⟨1, 1700000000000, 2 ^ 64 - 2147483296, 1700000000000, false⟩] ∧
      ¬∀ d ∈ s.handouts, d.OnTime :=
  ⟨_, rfl, by decide, by decide⟩

end Clocked

end TimerManager

end Muhui
