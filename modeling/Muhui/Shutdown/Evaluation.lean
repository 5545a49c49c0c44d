/-
  What an evaluation of `stopping` has read, and whether it still holds.

  An evaluation that is under way has read the timers, or the timers and the count of events
  (`Place.read`), and one that has returned true has read the queue as well.  `Fact` says that what
  a thread has read is still so.  Only a step that adds a timer, an event or a task can spoil a fact
  (`adds`, `Fact.next`): the others take timers away, and while the count of events is zero nobody
  waits for an event and nobody owes a decrement (`Sound.accounted`).
-/
import Muhui.Scheduler.Conservation
import Muhui.Shutdown.Next

namespace Muhui

/-! ### Timers -/

namespace TimerManager

variable {P κ : Type*} [LinearOrder P] {m : TimerManager P κ} {p : P}

/-- Every deadline fits into a `uint64_t`. -/
def Bounded (m : TimerManager P κ) : Prop := ∀ p, (m.mem p).next < 2 ^ 64

theorem addU64_lt (a b : ℕ) : addU64 a b < 2 ^ 64 := Nat.mod_lt _ (Nat.two_pow_pos 64)

theorem Bounded.store (h : m.Bounded) {t : Timer κ} (ht : t.next < 2 ^ 64) :
    (m.store p t).Bounded := by
  intro q
  rw [store_mem]
  split_ifs
  · exact ht
  · exact h q

theorem Bounded.expireLoop {m : TimerManager P κ} (h : m.Bounded) (now : ℕ) (qs : List P) :
    (expireLoop now qs m).2.Bounded := by
  induction qs generalizing m with
  | nil => exact h
  | cons q qs ih =>
    rw [TimerManager.expireLoop]
    refine ih ?_
    split_ifs
    · exact h.store (t := { m.mem q with next := addU64 now (m.mem q).ms }) (addU64_lt _ _)
    · exact h.store (h q)

theorem Bounded.cancel (h : m.Bounded) {b : Bool} {m' : TimerManager P κ}
    (hok : m.cancel p = .ok (b, m')) : m'.Bounded := by
  simp only [TimerManager.cancel] at hok
  split_ifs at hok
  · split at hok
    · cases hok
    · obtain ⟨-, rfl⟩ := Prod.mk.inj (Except.ok.inj hok)
      exact h.store (h p)
  · obtain ⟨-, rfl⟩ := Prod.mk.inj (Except.ok.inj hok)
    exact h

theorem Bounded.refresh (h : m.Bounded) (now : ℕ) : (m.refresh p now).2.Bounded := by
  unfold TimerManager.refresh
  split_ifs
  · split
    · exact h
    · exact h.store (t := { m.mem p with next := addU64 now (m.mem p).ms }) (addU64_lt _ _)
  · exact h

theorem Bounded.addTimerLocked (h : m.Bounded) : (m.addTimerLocked p).2.Bounded := by
  intro q
  rw [addTimerLocked_mem]
  exact h q

theorem Bounded.reset (h : m.Bounded) (ms : ℕ) (from_now : Bool) (now seen : ℕ) :
    (m.reset p ms from_now now seen).2.2.Bounded := by
  unfold TimerManager.reset
  split
  · exact h
  split
  · split
    · exact h
    next it _ =>
      have herase : (m.eraseAt it).Bounded := h
      have hstore := herase.store (p := p) (t := resetTo (m.mem p) ms from_now now)
        (addU64_lt _ _)
      exact hstore.addTimerLocked
  · exact h

theorem Bounded.takeExpired (h : m.Bounded) {rollover : Bool} {now : ℕ} {probe : P}
    {out : List (P × Option κ)} {m' : TimerManager P κ}
    (hok : m.takeExpired rollover now probe = .ok (out, m')) : m'.Bounded := by
  rcases takeExpired_eq hok with ⟨-, rfl⟩ | heq
  · exact h
  · obtain rfl := congrArg Prod.snd heq
    have hdrop : Bounded
        { m with timer := m.timer.drop (m.expiredEnd rollover now probe) } := h
    exact hdrop.expireLoop now _

namespace System

variable {s s' : System P κ}

theorem bounded_next {a : TimerManager.Step P κ} (h : s.tm.Bounded) (hnext : s.next a = some s') :
    s'.tm.Bounded := by
  cases a with
  | addTimer p ms cb recurring now =>
    obtain ⟨-, rfl⟩ := next_addTimer hnext
    exact (h.store (t := ⟨recurring, ms, addU64 now ms, some cb⟩) (addU64_lt _ _)).addTimerLocked
  | cancel p =>
    obtain ⟨-, ⟨f, -, rfl⟩ | ⟨tm, hok, rfl⟩ | ⟨tm, hok, rfl⟩⟩ := next_cancel hnext
    · exact h
    · exact h.cancel hok
    · exact h.cancel hok
  | refresh p now =>
    obtain ⟨-, rfl⟩ := next_refresh hnext
    exact h.refresh now
  | reset p ms from_now now seen =>
    obtain ⟨-, rfl⟩ := next_reset hnext
    exact h.reset ms from_now now seen
  | getNextTimer now =>
    obtain rfl := next_getNextTimer hnext
    intro p
    show ((s.tm.getNextTimer now).2.mem p).next < 2 ^ 64
    rw [getNextTimer_snd]
    exact h p
  | listTest now =>
    rcases next_listTest hnext with rfl | rfl
    · exact h
    · exact h
  | listTake now probe =>
    obtain ⟨-, -, ⟨f, -, rfl⟩ | ⟨out, tm, hok, rfl⟩⟩ := next_listTake hnext
    · exact h
    · exact Bounded.takeExpired (m := (s.tm.detectClockRollover now).2) h hok

/-- Only `addTimer` puts a timer into an empty set. -/
theorem timer_eq_nil_next {a : TimerManager.Step P κ} (hnil : s.tm.timer = [])
    (hadd : ∀ p ms cb recurring now, a ≠ .addTimer p ms cb recurring now)
    (hnext : s.next a = some s') : s'.tm.timer = [] := by
  have hfind : ∀ (t : P → Timer κ) (p : P), OrderedSet.find (Timer.less t) p s.tm.timer = none := by
    intro t p
    rw [hnil]
    rfl
  cases a with
  | addTimer p ms cb recurring now => exact absurd rfl (hadd p ms cb recurring now)
  | cancel p =>
    obtain ⟨-, hcancel⟩ := next_cancel hnext
    simp only [TimerManager.cancel, find, store_timer, hfind] at hcancel
    split_ifs at hcancel
    · rcases hcancel with ⟨f, -, rfl⟩ | ⟨tm, hok, -⟩ | ⟨tm, hok, -⟩
      · exact hnil
      · cases hok
      · cases hok
    · rcases hcancel with ⟨f, herr, -⟩ | ⟨tm, hok, -⟩ | ⟨tm, hok, rfl⟩
      · cases herr
      · cases hok
      · obtain rfl := congrArg Prod.snd (Except.ok.inj hok)
        exact hnil
  | refresh p now =>
    obtain ⟨-, rfl⟩ := next_refresh hnext
    simp only [TimerManager.refresh, find, hfind]
    split_ifs <;> exact hnil
  | reset p ms from_now now seen =>
    obtain ⟨-, rfl⟩ := next_reset hnext
    simp only [TimerManager.reset, find, hfind]
    split_ifs <;> exact hnil
  | getNextTimer now =>
    obtain rfl := next_getNextTimer hnext
    show (s.tm.getNextTimer now).2.timer = []
    rw [getNextTimer_snd]
    exact hnil
  | listTest now =>
    rcases next_listTest hnext with rfl | rfl
    · exact hnil
    · exact hnil
  | listTake now probe =>
    obtain ⟨-, -, ⟨f, -, rfl⟩ | ⟨out, tm, hok, rfl⟩⟩ := next_listTake hnext
    · exact hnil
    · have hnil' : (s.tm.detectClockRollover now).2.timer = [] := hnil
      rcases takeExpired_eq hok with ⟨-, rfl⟩ | heq
      · exact hnil
      · rw [hnil'] at heq
        obtain rfl := congrArg Prod.snd heq
        simp [expireLoop]

end System

omit [LinearOrder P] in
/-- `getNextTimer` returns `~0ull` only when there is no timer. -/
theorem timer_eq_nil_of_getNextTimer (h : m.Bounded) {now : ℕ} (hnow : now ≠ 0)
    (hmax : (m.getNextTimer now).1 = 2 ^ 64 - 1) : m.timer = [] := by
  cases htimer : m.timer with
  | nil => rfl
  | cons p ps =>
    have hlt := h p
    simp only [getNextTimer, htimer] at hmax
    split_ifs at hmax with hdue
    have hnow64 : now % 2 ^ 64 = now := Nat.mod_eq_of_lt (by omega)
    have hsum : (m.mem p).next + (2 ^ 64 - now) = ((m.mem p).next - now) + 2 ^ 64 := by omega
    unfold subU64 at hmax
    rw [hnow64, hsum, Nat.add_mod_right, Nat.mod_eq_of_lt (by omega)] at hmax
    omega

end TimerManager

namespace Shutdown

open Scheduler (Job)

variable {P : Type*} [LinearOrder P]

/-! ### What has been read -/

/-- What the evaluation of a thread in this place has read. -/
def Place.read : Place → List Eval
  | stopTest _ .pending | idle (.test .pending) => [.timer]
  | stopTest _ .queue | idle (.test .queue) => [.timer, .pending]
  | leaving | exited => [.timer, .pending, .queue]
  | _ => []

namespace Place

variable {p : Place} {e : Eval}

theorem read_of_timer (h : p.eval = some .timer) : p.read = [] := by
  unfold eval at h
  split at h
  all_goals cases h
  all_goals rfl

theorem read_of_pending (h : p.eval = some .pending) : p.read = [.timer] := by
  unfold eval at h
  split at h
  all_goals cases h
  all_goals rfl

theorem read_of_queue (h : p.eval = some .queue) : p.read = [.timer, .pending] := by
  unfold eval at h
  split at h
  all_goals cases h
  all_goals rfl

theorem eval_goOn (h : p.eval = some e) (e' : Eval) : (p.goOn e').eval = some e' := by
  unfold eval at h
  split at h
  all_goals cases h
  all_goals rfl

theorem read_pass (h : p.eval = some e) : p.pass.read = [.timer, .pending, .queue] := by
  unfold eval at h
  split at h
  all_goals cases h
  all_goals rfl

theorem read_fail (h : p.eval = some e) : p.fail.read = [] := by
  unfold eval at h
  split at h
  case h_1 n e' =>
    rcases n with _ | _ | n
    all_goals rfl
  case h_2 => rfl
  case h_3 => cases h

theorem eval_pass (h : p.eval = some e) : p.pass.eval = none := by
  unfold eval at h
  split at h
  all_goals cases h
  all_goals rfl

theorem eval_fail (h : p.eval = some e) : p.fail.eval = none ∨ p.fail.eval = some .timer := by
  unfold eval at h
  split at h
  case h_1 n e' =>
    rcases n with _ | _ | n
    · exact Or.inl rfl
    · exact Or.inl rfl
    · exact Or.inr rfl
  case h_2 => exact Or.inl rfl
  case h_3 => cases h

theorem pending_mem_read (h : .queue ∈ p.read) : .pending ∈ p.read := by
  unfold read at h ⊢
  split at h
  all_goals simp_all

end Place

/-- The read would have the same result now. -/
def Holds (s : Shutdown P) : Eval → Prop
  | .timer => s.timers.tm.timer = []
  | .pending => s.pendingEventCount = 0
  | .queue => s.sched.fibers = []

/-- What the evaluation of `w` has read is still so. -/
def Fact (s : Shutdown P) (w : ℕ) : Prop := ∀ e ∈ (s.place w).read, s.Holds e

/-- What a step adds to. -/
def adds (s : Shutdown P) : Step P → Option Eval
  | .op _ (.schedule _ _) | .submit _ => some .queue
  | .op _ (.timer (.addTimer ..)) => some .timer
  | .op _ (.addEvent _) => some .pending
  | .sched a => (Scheduler.enqueued s.sched a).map fun _ => .queue
  | _ => none

/-- The worker that takes the step. -/
def actor : Step P → Option ℕ
  | .sched a => worker a
  | .op by' _ | .settle by' => by'
  | .evaluate w _ | .wake w | .listTest w _ | .listTake w _ | .submit w | .idleOut w => some w
  | .stop => none

/-! ### The invariant -/

/-- What holds in every reachable state. -/
structure Sound (s : Shutdown P) : Prop where
  bounded : s.timers.tm.Bounded
  /-- Every pending event has somebody who waits for it, or somebody who is about to decrement. -/
  accounted : s.pendingEventCount = s.waiting.length + s.owing.length
  counted : s.sched.Counted
  mem : ∀ w, s.place w ≠ .outside → s.workers.mem w
  /-- The caller enters `run` in `stop` only. -/
  caller : s.stopping = false → ∀ w, s.workers.caller = some w → s.place w = .outside

variable {s s' : Shutdown P} {w v : ℕ} {p : Place}

omit [LinearOrder P] in
@[simp] theorem move_place_self : (s.move w p).place w = p := Function.update_self ..

omit [LinearOrder P] in
theorem move_place_of_ne (h : v ≠ w) : (s.move w p).place v = s.place v :=
  Function.update_of_ne h ..

omit [LinearOrder P] in
theorem sound_init (ws : Workers) (now : ℕ) : (init ws now : Shutdown P).Sound where
  bounded _ := by
    show 0 < 2 ^ 64
    omega
  accounted := rfl
  counted := Scheduler.counted_init
  mem w h := by
    simp only [init, ne_eq, ite_eq_right_iff, reduceCtorEq, imp_false, not_not] at h
    exact Or.inl h
  caller _ w h := if_neg (ws.notMem w h)

/-- A thread that does not move keeps its place; one that moves was in `run` or in its idle fiber,
or begins to evaluate `stopping` in `stop`. -/
theorem place_next {a : Step P} (hnext : Next s a s') (v : ℕ) :
    s'.place v = s.place v ∨ s.place v ≠ .outside ∨
      a = .stop ∧ s.workers.caller = some v := by
  have hmove : ∀ {t : Shutdown P} {w : ℕ} {p : Place}, t.place = s.place → s.place w ≠ .outside →
      (t.move w p).place v = s.place v ∨ s.place v ≠ .outside := by
    intro t w p ht hw
    by_cases hv : v = w
    · exact Or.inr (hv ▸ hw)
    · exact Or.inl (by rw [move_place_of_ne hv, ht])
  have heval : ∀ {w : ℕ} {e : Eval}, (s.place w).eval = some e → s.place w ≠ .outside := by
    intro w e he hout
    rw [hout] at he
    cases he
  cases hnext with
  | ran | scheduled | built | timed | eventAdded | eventDeleted | triggered | settled | stopped =>
    exact Or.inl rfl
  | idled hplace | left hplace | woke hplace | listTested hplace | listTaken hplace
  | submitted hplace | switched hplace =>
    exact (hmove rfl (by rw [hplace]; exact Place.noConfusion)).imp_right Or.inl
  | readTimer he | readPending he | readQueue he =>
    exact (hmove rfl (heval he)).imp_right Or.inl
  | @stopTested w n hstop hcaller =>
    by_cases hv : v = w
    · exact Or.inr (Or.inr ⟨rfl, hv ▸ hcaller⟩)
    · exact Or.inl (move_place_of_ne hv)

theorem workers_next {a : Step P} (hnext : Next s a s') : s'.workers = s.workers := by
  cases hnext with
  | _ => rfl

/-- Only `stop` sets `m_stopping`. -/
theorem stopping_next {a : Step P} (hnext : Next s a s') :
    s'.stopping = s.stopping ∨ a = .stop ∧ s'.stopping = true := by
  cases hnext with
  | stopped | stopTested => exact Or.inr ⟨rfl, rfl⟩
  | _ => exact Or.inl rfl

theorem bounded_next {a : Step P} (h : s.timers.tm.Bounded) (hnext : Next s a s') :
    s'.timers.tm.Bounded := by
  cases hnext with
  | timed _ htimers | listTested _ htimers | listTaken _ htimers =>
    exact TimerManager.System.bounded_next h htimers
  | @readTimer w now =>
    intro p
    show ((s.timers.tm.getNextTimer now).2.mem p).next < 2 ^ 64
    rw [TimerManager.getNextTimer_snd]
    exact h p
  | _ => exact h

theorem accounted_next {a : Step P} (h : s.pendingEventCount = s.waiting.length + s.owing.length)
    (hnext : Next s a s') : s'.pendingEventCount = s'.waiting.length + s'.owing.length := by
  have herase : ∀ {α : Type} [BEq α] [LawfulBEq α] {x : α} {l : List α}, x ∈ l →
      (l.length : ℤ) = (l.erase x).length + 1 := by
    intro α _ _ x l hx
    have hpos := List.length_pos_of_mem hx
    have hlen := List.length_erase_of_mem hx
    omega
  cases hnext with
  | eventAdded =>
    simp only [List.length_cons]
    omega
  | eventDeleted hmem | settled hmem =>
    have hlen := herase hmem
    simp only
    omega
  | triggered hmem =>
    have hlen := herase hmem
    simp only [List.length_cons]
    omega
  | _ => exact h

theorem counted_next {a : Step P} (h : s.sched.Counted) (hnext : Next s a s') :
    s'.sched.Counted := by
  cases hnext with
  | ran _ _ hsched | built hsched => exact h.next hsched
  | scheduled | triggered | submitted => exact h.stay rfl rfl
  | _ => exact h

/-- **Step lemma.** -/
theorem Sound.next {a : Step P} (h : s.Sound) (hnext : s.next a = some s') : s'.Sound := by
  have hstep := Next.of_next hnext
  constructor
  case bounded => exact bounded_next h.bounded hstep
  case accounted => exact accounted_next h.accounted hstep
  case counted => exact counted_next h.counted hstep
  case mem =>
    intro w hw
    rw [workers_next hstep]
    rcases place_next hstep w with heq | hout | ⟨-, hcaller⟩
    · exact h.mem w (heq ▸ hw)
    · exact h.mem w hout
    · exact Or.inr hcaller
  case caller =>
    intro hstopping w hw
    rw [workers_next hstep] at hw
    rcases stopping_next hstep with hs | ⟨-, hs⟩
    · have hout := h.caller (hs ▸ hstopping) w hw
      rcases place_next hstep w with heq | hne | ⟨rfl, -⟩
      · rw [heq, hout]
      · exact absurd hout hne
      · -- `stop` would have set the flag
        cases hstep with
        | stopped | stopTested => cases hstopping
    · rw [hs] at hstopping
      cases hstopping

theorem sound_of_run {as : List (Step P)} {ws : Workers} {now : ℕ}
    (hrun : Transition.run next (init ws now) as = some s) : s.Sound :=
  Transition.invariant_of_run Sound (fun _ _ _ h hnext => h.next hnext) (sound_init ws now) hrun

/-! ### Facts -/

omit [LinearOrder P] in
theorem Sound.nobody_waits (h : s.Sound) (hpending : s.Holds .pending) :
    s.waiting = [] ∧ s.owing = [] := by
  have hcount : s.pendingEventCount = 0 := hpending
  have haccounted := h.accounted
  constructor
  · exact List.length_eq_zero_iff.mp (by omega)
  · exact List.length_eq_zero_iff.mp (by omega)

theorem timer_holds_next {a : Step P} (h : s.Holds .timer) (hadds : s.adds a ≠ some .timer)
    (hnext : Next s a s') : s'.Holds .timer := by
  have hnil : s.timers.tm.timer = [] := h
  cases hnext with
  | timed _ htimers =>
    refine TimerManager.System.timer_eq_nil_next hnil (fun p ms cb recurring now heq => ?_) htimers
    subst heq
    exact hadds rfl
  | listTested _ htimers | listTaken _ htimers =>
    exact TimerManager.System.timer_eq_nil_next hnil (fun _ _ _ _ _ heq => by cases heq) htimers
  | @readTimer w now =>
    show (s.timers.tm.getNextTimer now).2.timer = []
    rw [TimerManager.getNextTimer_snd]
    exact hnil
  | _ => exact hnil

theorem pending_holds_next {a : Step P} (hs : s.Sound) (h : s.Holds .pending)
    (hadds : s.adds a ≠ some .pending) (hnext : Next s a s') : s'.Holds .pending := by
  obtain ⟨hwaiting, howing⟩ := hs.nobody_waits h
  cases hnext with
  | eventAdded => exact absurd rfl hadds
  | eventDeleted hmem =>
    rw [hwaiting] at hmem
    cases hmem
  | settled hmem =>
    rw [howing] at hmem
    cases hmem
  | _ => exact h

/-- A section of `run` that pushes nothing leaves an empty queue empty. -/
theorem fibers_eq_nil_next {sched sched' : Scheduler} {a : Scheduler.Step}
    (hnil : sched.fibers = []) (hpush : Scheduler.enqueued sched a = none)
    (hnext : sched.next a = some sched') : sched'.fibers = [] := by
  obtain ⟨-, hnext⟩ := Scheduler.Next.of_next hnext
  cases hnext with
  | scheduled | triggered => cases hpush
  | @took w t ts hpc htake =>
    rw [hnil] at htake
    cases htake
  | ready hpc hstate => simp [Scheduler.enqueued, hpc, hstate] at hpush
  | @ended w f isCb =>
    cases isCb
    all_goals exact hnil
  | _ => exact hnil

theorem queue_holds_next {a : Step P} (h : s.Holds .queue) (hwaiting : s.waiting = [])
    (hadds : s.adds a ≠ some .queue) (hnext : Next s a s') : s'.Holds .queue := by
  have hnil : s.sched.fibers = [] := h
  cases hnext with
  | ran _ _ hsched =>
    refine fibers_eq_nil_next hnil ?_ hsched
    simpa [adds, Option.eq_none_iff_forall_ne_some] using hadds
  | built _ hfibers => exact hfibers.trans hnil
  | scheduled | submitted => exact absurd rfl hadds
  | triggered hmem =>
    rw [hwaiting] at hmem
    cases hmem
  | _ => exact hnil

/-- What an evaluation has read stays so, unless the step adds to it. -/
theorem holds_next {a : Step P} (hs : s.Sound) {p : Place} (h : ∀ e ∈ p.read, s.Holds e)
    (hadds : ∀ e, s.adds a = some e → e ∉ p.read) (hnext : Next s a s') :
    ∀ e ∈ p.read, s'.Holds e := by
  intro e he
  have hne : s.adds a ≠ some e := fun heq => hadds e heq he
  cases e with
  | timer => exact timer_holds_next (h _ he) hne hnext
  | pending => exact pending_holds_next hs (h _ he) hne hnext
  | queue =>
    have hpending := h _ (Place.pending_mem_read he)
    exact queue_holds_next (h _ he) (hs.nobody_waits hpending).1 hne hnext

/-- What a thread has read after a step it has read before, or it is so now. -/
theorem read_next {a : Step P} (hs : s.Sound) (hnext : Next s a s') (v : ℕ) :
    ∀ e ∈ (s'.place v).read, e ∈ (s.place v).read ∨ s'.Holds e := by
  -- it is enough to look at the thread that moves
  have hmove : ∀ {t : Shutdown P} {w : ℕ} {p : Place}, t.place = s.place →
      (∀ e ∈ p.read, e ∈ (s.place w).read ∨ (t.move w p).Holds e) →
      ∀ e ∈ ((t.move w p).place v).read, e ∈ (s.place v).read ∨ (t.move w p).Holds e := by
    intro t w p ht hw e he
    by_cases hv : v = w
    · subst hv
      rw [move_place_self] at he
      exact hw e he
    · rw [move_place_of_ne hv, ht] at he
      exact Or.inl he
  cases hnext with
  | ran | scheduled | built | timed | eventAdded | eventDeleted | triggered | settled | stopped =>
    exact fun e he => Or.inl he
  | left hplace =>
    refine hmove rfl fun e he => Or.inl ?_
    rw [hplace]
    exact he
  | idled | woke | listTaken | submitted | switched | stopTested =>
    exact hmove rfl fun e he => absurd he List.not_mem_nil
  | listTested _ _ hi =>
    refine hmove rfl fun e he => ?_
    rcases hi with rfl | rfl
    all_goals exact absurd he List.not_mem_nil
  | @readTimer w now p heval hnow hp =>
    refine hmove rfl fun e he => Or.inr ?_
    rcases hp with ⟨hmax, rfl⟩ | rfl
    · rw [Place.read_of_pending (Place.eval_goOn heval _)] at he
      obtain rfl := List.mem_singleton.mp he
      show (s.timers.tm.getNextTimer now).2.timer = []
      rw [TimerManager.getNextTimer_snd]
      exact TimerManager.timer_eq_nil_of_getNextTimer hs.bounded hnow hmax
    · rw [Place.read_fail heval] at he
      cases he
  | @readPending w now p heval hp =>
    refine hmove rfl fun e he => ?_
    rcases hp with ⟨hcount, rfl⟩ | rfl
    · rw [Place.read_of_queue (Place.eval_goOn heval _)] at he
      rw [Place.read_of_pending heval]
      rcases List.mem_cons.mp he with rfl | he
      · exact Or.inl List.mem_cons_self
      · obtain rfl := List.mem_singleton.mp he
        exact Or.inr hcount
    · rw [Place.read_fail heval] at he
      cases he
  | @readQueue w now p heval hp =>
    refine hmove rfl fun e he => ?_
    rcases hp with ⟨hstopping, rfl⟩ | rfl
    · rw [Place.read_pass heval] at he
      rw [Place.read_of_queue heval]
      cases e with
      | timer | pending => exact Or.inl (by simp)
      | queue =>
        simp only [schedStopping, Bool.and_eq_true, List.isEmpty_iff] at hstopping
        exact Or.inr hstopping.2
    · rw [Place.read_fail heval] at he
      cases he

/-- **A fact stays a fact**, unless the step adds to what has been read. -/
theorem Fact.next {a : Step P} (hs : s.Sound) (h : s.Fact v)
    (hadds : ∀ e, s.adds a = some e → e ∉ (s.place v).read) (hnext : s.next a = some s') :
    s'.Fact v := by
  have hstep := Next.of_next hnext
  intro e he
  rcases read_next hs hstep v e he with hread | hholds
  · exact holds_next hs h hadds hstep e hread
  · exact hholds

end Shutdown

end Muhui
