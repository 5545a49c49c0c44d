/-
  Timer wake-ups: the thread that sleeps until the front timer learns of every earlier one.

  `getNextTimer` tells a thread how long it may sleep, so a timer that ends up before the front
  deadline of that moment has to call `onTimerInsertedAtFront`.  `m_tickled` suppresses the call
  when one has been made since; it is set under the lock and the call is made after unlocking.

  `Alarm` runs the sections of `TimerManager.System` on threads with a clock.  It remembers what
  the last `getNextTimer` has seen (`armed`), numbers the calls of `getNextTimer` (`epoch`), and
  keeps for every thread that still has to call `onTimerInsertedAtFront` the epoch in which it set
  `m_tickled`.

  The invariant is `Notified`: a timer before `armed`, or a set `m_tickled`, comes with a call that
  has been made or is due in this epoch.  Only `addTimer` and `reset` put a timer to a place that
  is earlier than any before (`addTimerLocked_early`).  Expiry and `refresh` only move deadlines
  back (`Delays`), because a deadline is a period after a clock reading that has passed
  (`Started`).
-/
import Mathlib.Algebra.Order.Monoid.Unbundled.WithTop
import Mathlib.Order.Lattice.Nat
import Mathlib.Order.MinMax
import Muhui.Timer.Delivery

namespace Muhui

variable {T P κ : Type*}

namespace TimerManager

/-- The earliest deadline, infinity when there is no timer. -/
def earliest (m : TimerManager P κ) : WithTop ℕ :=
  m.timer.foldr (fun p d => min ((m.mem p).next : WithTop ℕ) d) ⊤

variable {m m' : TimerManager P κ} {p : P}

theorem earliest_lt {d : WithTop ℕ} :
    m.earliest < d ↔ ∃ p ∈ m.timer, ((m.mem p).next : WithTop ℕ) < d := by
  unfold earliest
  induction m.timer with
  | nil => simp
  | cons q l ih => simp [ih]

/-- The deadline `t.next` is a period after a clock reading that has passed, and it has not
overflowed. -/
def Started (clock : ℕ) (t : Timer κ) : Prop :=
  t.ms ≤ t.next ∧ t.next ≤ clock + t.ms ∧ t.next < 2 ^ 64

theorem Started.mono {clock clock' : ℕ} {t : Timer κ} (h : Started clock t)
    (hle : clock ≤ clock') : Started clock' t := ⟨h.1, by have := h.2.1; omega, h.2.2⟩

theorem addU64_of_lt {a b : ℕ} (h : a + b < 2 ^ 64) : addU64 a b = a + b := Nat.mod_eq_of_lt h

theorem subU64_of_le {a b : ℕ} (hle : b ≤ a) (ha : a < 2 ^ 64) : subU64 a b = a - b := by
  unfold subU64
  have hb : b % 2 ^ 64 = b := Nat.mod_eq_of_lt (by omega)
  rw [hb]
  have hsum : a + (2 ^ 64 - b) = (a - b) + 2 ^ 64 := by omega
  rw [hsum, Nat.add_mod_right, Nat.mod_eq_of_lt (by omega)]

/-- No timer is new and none has an earlier deadline. -/
structure Delays (m m' : TimerManager P κ) : Prop where
  tickled : m'.tickled = m.tickled
  next_le : ∀ q ∈ m'.timer, q ∈ m.timer ∧ (m.mem q).next ≤ (m'.mem q).next

theorem Delays.refl (m : TimerManager P κ) : Delays m m := ⟨rfl, fun _ hq => ⟨hq, le_rfl⟩⟩

theorem Delays.early (h : Delays m m') {d : WithTop ℕ} (hearly : m'.earliest < d) :
    m.earliest < d := by
  obtain ⟨q, hq, hqd⟩ := earliest_lt.mp hearly
  obtain ⟨hq, hle⟩ := h.next_le q hq
  exact earliest_lt.mpr ⟨q, hq, lt_of_le_of_lt (WithTop.coe_le_coe.mpr hle) hqd⟩

/-! ### Insertion -/

variable [LinearOrder P]

theorem addTimerLocked_fst :
    (m.addTimerLocked p).1 = (decide ((m.insert p).timer.head? = some p) && !m.tickled) := rfl

theorem addTimerLocked_tickled :
    (m.addTimerLocked p).2.tickled = (m.tickled || (m.addTimerLocked p).1) := by
  have hsnd : (m.addTimerLocked p).2 = if (m.addTimerLocked p).1 = true then
      { m.insert p with tickled := true } else m.insert p := rfl
  rw [hsnd]
  split_ifs with hfront
  · rw [hfront, Bool.or_true]
  · rw [Bool.not_eq_true] at hfront
    rw [hfront, Bool.or_false]
    rfl

/-- The first timer of the set has the earliest deadline. -/
theorem Ordered.head_le (h : m.Ordered) {q : P} (hq : q ∈ m.timer) :
    ∃ f ∈ m.timer, m.timer.head? = some f ∧ (m.mem f).next ≤ (m.mem q).next := by
  unfold Ordered at h
  cases htimer : m.timer with
  | nil =>
    rw [htimer] at hq
    cases hq
  | cons f l =>
    rw [htimer] at hq h
    obtain ⟨hf, -⟩ := List.pairwise_cons.mp h
    refine ⟨f, List.mem_cons_self, rfl, ?_⟩
    rcases List.mem_cons.mp hq with rfl | hq
    · exact le_rfl
    · rcases Timer.less_eq_true.mp (hf q hq) with hlt | ⟨heq, -⟩
      · exact hlt.le
      · exact heq.le

/-- **A timer inserted before everything else is noticed**: the caller is told to call
`onTimerInsertedAtFront`, or `m_tickled` says that a call is due already, or there was an earlier
timer before. -/
theorem addTimerLocked_early (h : (m.insert p).Ordered) {d : WithTop ℕ}
    (hearly : (m.addTimerLocked p).2.earliest < d) :
    (m.addTimerLocked p).1 = true ∨ m.tickled = true ∨
      ∃ q ∈ m.timer, ((m.mem q).next : WithTop ℕ) < d := by
  obtain ⟨q, hq, hqd⟩ := earliest_lt.mp hearly
  rw [addTimerLocked_timer] at hq
  rw [addTimerLocked_mem] at hqd
  obtain ⟨f, hf, hhead, hle⟩ := h.head_le hq
  have hfd : ((m.mem f).next : WithTop ℕ) < d :=
    lt_of_le_of_lt (WithTop.coe_le_coe.mpr hle) hqd
  by_cases hfp : f = p
  · -- `p` is at the front
    subst hfp
    rw [addTimerLocked_fst, hhead]
    cases m.tickled <;> simp
  · -- something else is, and it was there before
    rcases mem_insert.mp hf with heq | hf
    · exact absurd heq hfp
    · exact Or.inr (Or.inr ⟨f, hf, hfd⟩)

/-! ### Operations that only move deadlines back -/

/-- What is in the set after a timer has been taken out, written to and put back. -/
theorem reinsert_timer (hp : p ∈ m.timer) {q : P} {t : Timer κ}
    (hq : q ∈ ((store { m with timer := m.timer.erase p } p t).insert p).timer) :
    q ∈ m.timer := by
  rcases mem_insert.mp hq with rfl | hq
  · exact hp
  · exact List.mem_of_mem_erase hq

theorem refresh_delays (h : m.Ordered) (hp : p ∈ m.timer) (hcb : (m.mem p).cb.isSome = true)
    {now : ℕ} (hstarted : Started now (m.mem p)) (hfits : now + (m.mem p).ms < 2 ^ 64) :
    Delays m (m.refresh p now).2 := by
  rw [refresh_of_mem h hp hcb]
  refine ⟨rfl, fun q hq => ⟨reinsert_timer hp hq, ?_⟩⟩
  rw [insert_mem, store_mem]
  split_ifs with hqp
  · rw [hqp]
    show _ ≤ addU64 now (m.mem p).ms
    rw [addU64_of_lt hfits]
    exact hstarted.2.1
  · exact le_rfl

/-- The timers after `listExpiredCb` without a rollover. -/
theorem takeExpired_mem (h : m.Ordered) {now : ℕ} {probe : P} (hprobe : probe ∉ m.timer)
    {out : List (P × Option κ)} (hok : m.takeExpired false now probe = .ok (out, m')) :
    m'.tickled = m.tickled ∧ ∀ q ∈ m'.timer, q ∈ m.timer ∧
      (m'.mem q = m.mem q ∨ (m.mem q).recurring = true ∧ (m.mem q).next ≤ now ∧
        m'.mem q = { m.mem q with next := addU64 now (m.mem q).ms }) := by
  rcases takeExpired_eq hok with ⟨-, rfl⟩ | heq
  · exact ⟨rfl, fun q hq => ⟨hq, Or.inl rfl⟩⟩
  obtain ⟨qs, hqs⟩ : ∃ qs, m.timer.take (m.expiredEnd false now probe) = qs := ⟨_, rfl⟩
  obtain ⟨rest, hrest⟩ : ∃ rest, m.timer.drop (m.expiredEnd false now probe) = rest := ⟨_, rfl⟩
  have htimer : m.timer = qs ++ rest := by rw [← hqs, ← hrest, List.take_append_drop]
  have hnodup : (qs ++ rest).Nodup := htimer ▸ h.nodup
  obtain ⟨hnodup, -, hdisj⟩ := List.nodup_append.mp hnodup
  rw [hqs, hrest] at heq
  obtain rfl : m' = (expireLoop now qs { m with timer := rest }).2 := congrArg Prod.snd heq
  have hordered : Ordered { m with timer := rest } :=
    h.of_sublist (by rw [htimer]; exact List.sublist_append_right qs rest) fun _ _ => rfl
  have hspec := (expireLoop_spec now hordered hnodup fun q hq hq' => hdisj q hq q hq' rfl).2
  refine ⟨expireLoop_tickled now qs, fun q hq => ?_⟩
  rw [expireLoop_mem now hnodup]
  rcases (hspec.mem_iff q).mp hq with hq | ⟨hq, hrec⟩
  · have hout : q ∉ qs := fun hq' => hdisj q hq' q hq rfl
    exact ⟨by rw [htimer]; exact List.mem_append_right qs hq, Or.inl (if_neg hout)⟩
  · refine ⟨by rw [htimer]; exact List.mem_append_left rest hq, Or.inr ⟨hrec, ?_, ?_⟩⟩
    · exact next_le_of_mem_take_expiredEnd hprobe (by rw [hqs]; exact hq)
    · have hrec' : (m.mem q).recurring = true := hrec
      rw [if_pos hq, expired, if_pos hrec']

/-! ### Threads, a clock and the calls of `onTimerInsertedAtFront` -/

/-- The timers of a program whose threads call `onTimerInsertedAtFront`. -/
structure Alarm (T P κ : Type*) where
  sys : System P κ
  /-- `GetCurrentMS()` -/
  clock : ℕ
  /-- The earliest deadline at the last `getNextTimer`. -/
  armed : WithTop ℕ
  /-- The number of calls of `getNextTimer`. -/
  epoch : ℕ
  /-- For a thread that has set `m_tickled` and is about to call `onTimerInsertedAtFront`: the
  epoch in which it set `m_tickled`. -/
  about : T → Option ℕ
  /-- Has `onTimerInsertedAtFront` been called in this epoch. -/
  called : Bool

/-- What can happen next. -/
inductive Act (T P κ : Type*)
  /-- The thread `t` runs a section under `m_mutex`. -/
  | op (t : T) (a : Step P κ)
  /-- The thread `t` calls `onTimerInsertedAtFront`. -/
  | notify (t : T)
  /-- Time passes. -/
  | tick (ms : ℕ)

namespace Alarm

/-- The clock reading of a section.  `addTimer` and `listExpiredCb` read the clock before they take
the lock, `refresh`, `reset` and `getNextTimer` under the lock. -/
def ReadsClock (clock : ℕ) : Step P κ → Prop
  | .addTimer _ _ _ _ now => now ≤ clock
  | .refresh _ now => now = clock
  | .reset _ _ _ now _ => now = clock
  | .getNextTimer now => now = clock
  | .listTest now => now ≤ clock
  | .cancel _ => True
  | .listTake _ _ => True

instance (clock : ℕ) : (a : Step P κ) → Decidable (ReadsClock clock a)
  | .addTimer _ _ _ _ now => inferInstanceAs (Decidable (now ≤ clock))
  | .refresh _ now => inferInstanceAs (Decidable (now = clock))
  | .reset _ _ _ now _ => inferInstanceAs (Decidable (now = clock))
  | .getNextTimer now => inferInstanceAs (Decidable (now = clock))
  | .listTest now => inferInstanceAs (Decidable (now ≤ clock))
  | .cancel _ => inferInstanceAs (Decidable True)
  | .listTake _ _ => inferInstanceAs (Decidable True)

/-- The flag of `addTimer(val, lock)`: the caller has set `m_tickled`. -/
def atFront (s : System P κ) : Step P κ → Bool
  | .addTimer p ms cb recurring now => (s.tm.addTimer p ms (some cb) recurring now).1
  | .reset p ms from_now now seen => (s.tm.reset p ms from_now now seen).2.1
  | _ => false

variable [DecidableEq T]

/-- What the section `a` of thread `t` leaves behind. -/
def record (s : Alarm T P κ) (t : T) (a : Step P κ) (sys : System P κ) : Alarm T P κ :=
  match a with
  | .getNextTimer _ =>
    { s with sys := sys, armed := s.sys.tm.earliest, epoch := s.epoch + 1, called := false }
  | a =>
    { s with
      sys := sys
      about := if atFront s.sys a then Function.update s.about t (some s.epoch) else s.about }

def next (s : Alarm T P κ) : Act T P κ → Option (Alarm T P κ)
  | .op t a =>
    -- a thread that has set `m_tickled` makes its call first
    if s.about t = none ∧ ReadsClock s.clock a then (s.sys.next a).map (s.record t a) else none
  | .notify t =>
    if (s.about t).isSome then
      some { s with about := Function.update s.about t none, called := true }
    else none
  | .tick ms => some { s with clock := s.clock + ms }

def init (mem : P → Timer κ) (now : ℕ) : Alarm T P κ :=
  { sys := .init mem now, clock := now, armed := ⊤, epoch := 0, about := fun _ => none,
    called := false }

/-- `onTimerInsertedAtFront` has been called in this epoch, or a thread that has set `m_tickled` in
this epoch is about to call it. -/
def Notified (s : Alarm T P κ) : Prop := s.called = true ∨ ∃ t, s.about t = some s.epoch

/-- The section computes no deadline of `2 ^ 64` or more. -/
def Fits (s : System P κ) : Step P κ → Prop
  | .addTimer _ ms _ _ now => now + ms < 2 ^ 64
  | .refresh p now => p ∈ s.tm.timer → now + (s.tm.mem p).ms < 2 ^ 64
  | .reset p ms from_now now seen =>
    p ∈ s.tm.timer → ¬(ms = seen ∧ from_now = false) →
      (if from_now then now else (s.tm.mem p).next - (s.tm.mem p).ms) + ms < 2 ^ 64
  | .listTake now _ =>
    ∀ p ∈ s.tm.timer, (s.tm.mem p).recurring = true → (s.tm.mem p).next ≤ now →
      now + (s.tm.mem p).ms < 2 ^ 64
  | _ => True

/-- The section reports no clock rollover. -/
def NoRollover (s : System P κ) : Step P κ → Prop
  | .listTake now _ => (s.tm.detectClockRollover now).1 = false
  | _ => True

/-- The side condition of every step: no overflow and no rollover. -/
def Regular (s : Alarm T P κ) : Act T P κ → Prop
  | .op _ a => Fits s.sys a ∧ NoRollover s.sys a
  | _ => True

/-! ### One section -/

/-- What the sections other than `getNextTimer` do for a sleeping thread: every deadline still
comes from a clock reading that has passed, and a timer before `d` that was not there is noticed. -/
structure Heard (clock : ℕ) (s : System P κ) (a : Step P κ) (s' : System P κ) : Prop where
  started : ∀ p ∈ s'.tm.timer, Started clock (s'.tm.mem p)
  listing : ∀ now ∈ s'.listing, now ≤ clock
  tickled : s'.tm.tickled = (s.tm.tickled || atFront s a)
  early : ∀ d, s'.tm.earliest < d →
    atFront s a = true ∨ s.tm.tickled = true ∨ s.tm.earliest < d

variable {s s' : System P κ} {clock : ℕ}

omit [DecidableEq T] in
/-- A section that only moves deadlines back. -/
theorem Heard.of_delays {a : Step P κ} (hdelays : Delays s.tm s'.tm) (hfront : atFront s a = false)
    (hstarted : ∀ p ∈ s'.tm.timer, Started clock (s'.tm.mem p))
    (hlisting : ∀ now ∈ s'.listing, now ≤ clock) : Heard clock s a s' where
  started := hstarted
  listing := hlisting
  tickled := by rw [hdelays.tickled, hfront, Bool.or_false]
  early d hearly := Or.inr (Or.inr (hdelays.early hearly))

/-- `addTimer(val, lock)` after writing `t` to the timer `p`. -/
theorem heard_addTimerLocked {a : Step P κ} {p : P} {t : Timer κ} {timer : List P}
    (h : s.tm.Ordered) (hsub : timer.Sublist s.tm.timer) (hp : p ∉ timer) (ht : Started clock t)
    (hstarted : ∀ p ∈ s.tm.timer, Started clock (s.tm.mem p))
    (htm : s'.tm = ((store { s.tm with timer := timer } p t).addTimerLocked p).2)
    (hfront : atFront s a = ((store { s.tm with timer := timer } p t).addTimerLocked p).1)
    (hlisting : ∀ now ∈ s'.listing, now ≤ clock) : Heard clock s a s' where
  started q hq := by
    rw [htm, addTimerLocked_timer, mem_insert] at hq
    rw [htm, addTimerLocked_mem, store_mem]
    split_ifs with hqp
    · exact ht
    · exact hstarted q (hsub.subset (hq.resolve_left hqp))
  listing := hlisting
  tickled := by
    rw [htm, hfront, addTimerLocked_tickled]
    rfl
  early d hearly := by
    have hordered : Ordered { s.tm with timer := timer } := h.of_sublist hsub fun _ _ => rfl
    rw [htm] at hearly
    rw [hfront]
    rcases addTimerLocked_early (insert_store hordered hp t) hearly with hfront | htickled | hq
    · exact Or.inl hfront
    · exact Or.inr (Or.inl htickled)
    · obtain ⟨q, hq, hqd⟩ := hq
      have hqp : q ≠ p := fun heq => hp (heq ▸ hq)
      rw [store_mem_of_ne hqp] at hqd
      exact Or.inr (Or.inr (earliest_lt.mpr ⟨q, hsub.subset hq, hqd⟩))

theorem heard_cancel (h : s.Inv) (hstarted : ∀ p ∈ s.tm.timer, Started clock (s.tm.mem p))
    (hlisting : ∀ now ∈ s.listing, now ≤ clock) {p : P} (hnext : s.next (.cancel p) = some s') :
    Heard clock s (.cancel p) s' := by
  rcases h.cancel_next hnext with ⟨-, rfl⟩ | ⟨-, rfl⟩
  · have hstore : ∀ q ∈ s.tm.timer.erase p,
        (s.tm.store p { s.tm.mem p with cb := none }).mem q = s.tm.mem q := by
      intro q hq
      exact store_mem_of_ne (fun heq => h.ordered.nodup.not_mem_erase (heq ▸ hq)) _
    refine .of_delays ⟨rfl, fun q hq => ⟨List.mem_of_mem_erase hq, ?_⟩⟩ rfl (fun q hq => ?_)
      hlisting
    · exact (congrArg Timer.next (hstore q hq)).ge
    · show Started clock ((s.tm.store p { s.tm.mem p with cb := none }).mem q)
      rw [hstore q hq]
      exact hstarted q (List.mem_of_mem_erase hq)
  · exact .of_delays (.refl _) rfl hstarted hlisting

theorem heard_refresh (h : s.Inv) (hstarted : ∀ p ∈ s.tm.timer, Started clock (s.tm.mem p))
    (hlisting : ∀ now ∈ s.listing, now ≤ clock) {p : P} (hp : (s.added p).isSome)
    (hfits : Fits s (.refresh p clock)) :
    Heard clock s (.refresh p clock) { s with tm := (s.tm.refresh p clock).2 } := by
  by_cases hmem : p ∈ s.tm.timer
  · have hcb : (s.tm.mem p).cb.isSome = true := by rw [(h.armed_of_mem hmem).2.1, hp]
    have hlt := hfits hmem
    refine .of_delays (refresh_delays h.ordered hmem hcb (hstarted p hmem) hlt) rfl ?_ hlisting
    show ∀ q ∈ (s.tm.refresh p clock).2.timer, Started clock ((s.tm.refresh p clock).2.mem q)
    rw [refresh_of_mem h.ordered hmem hcb]
    intro q hq
    rw [insert_mem, store_mem]
    split_ifs with hqp
    · unfold Started
      simp only [addU64_of_lt hlt]
      omega
    · exact hstarted q (reinsert_timer hmem hq)
  · rw [refresh_of_cb_none (h.cb_of_not_mem hp hmem)]
    exact .of_delays (.refl _) rfl hstarted hlisting

theorem started_resetTo {t : Timer κ} (h : Started clock t) {ms : ℕ} {from_now : Bool}
    (hlt : (if from_now then clock else t.next - t.ms) + ms < 2 ^ 64) :
    Started clock (resetTo t ms from_now clock) := by
  obtain ⟨hle, hclock, h64⟩ := h
  unfold Started resetTo
  cases from_now
  · simp only [Bool.false_eq_true, if_false] at hlt ⊢
    rw [subU64_of_le hle h64, addU64_of_lt hlt]
    omega
  · simp only [if_true] at hlt ⊢
    rw [addU64_of_lt hlt]
    omega

theorem heard_reset (h : s.Inv) (hstarted : ∀ p ∈ s.tm.timer, Started clock (s.tm.mem p))
    (hlisting : ∀ now ∈ s.listing, now ≤ clock) {p : P} {ms seen : ℕ} {from_now : Bool}
    (hp : (s.added p).isSome) (hfits : Fits s (.reset p ms from_now clock seen)) :
    Heard clock s (.reset p ms from_now clock seen)
      { s with tm := (s.tm.reset p ms from_now clock seen).2.2 } := by
  have hgiveUp (heq : s.tm.reset p ms from_now clock seen = (false, false, s.tm)) :
      Heard clock s (.reset p ms from_now clock seen)
        { s with tm := (s.tm.reset p ms from_now clock seen).2.2 } := by
    have hfront : atFront s (.reset p ms from_now clock seen) = false := by
      show (s.tm.reset p ms from_now clock seen).2.1 = false
      rw [heq]
    rw [heq]
    exact .of_delays (.refl _) hfront hstarted hlisting
  by_cases hseen : ms = seen ∧ from_now = false
  · exact hgiveUp (reset_of_same hseen clock)
  by_cases hmem : p ∈ s.tm.timer
  · have hcb : (s.tm.mem p).cb.isSome = true := by rw [(h.armed_of_mem hmem).2.1, hp]
    have heq := reset_of_mem h.ordered hmem hcb hseen clock
    have ht : Started clock (resetTo (s.tm.mem p) ms from_now clock) :=
      started_resetTo (hstarted p hmem) (hfits hmem hseen)
    refine heard_addTimerLocked (p := p) h.ordered List.erase_sublist
      h.ordered.nodup.not_mem_erase ht hstarted ?_ ?_ hlisting
    · show (s.tm.reset p ms from_now clock seen).2.2 = _
      rw [heq]
    · show (s.tm.reset p ms from_now clock seen).2.1 = _
      rw [heq]
  · exact hgiveUp (reset_of_cb_none (h.cb_of_not_mem hp hmem) ms from_now clock seen)

/-- The timers that `listExpiredCb` keeps are as they were, or begin anew. -/
theorem started_listExpiredCb (h : s.Inv)
    (hstarted : ∀ p ∈ s.tm.timer, Started clock (s.tm.mem p)) {now : ℕ} {probe : P}
    {out : List (P × Option κ)} {tm : TimerManager P κ} (hle : now ≤ clock)
    (hout : probe ∉ s.tm.timer) (hfits : Fits s (.listTake now probe))
    (hroll : NoRollover s (.listTake now probe))
    (hok : s.tm.listExpiredCb now probe = .ok (out, tm)) :
    Delays s.tm tm ∧ ∀ q ∈ tm.timer, Started clock (tm.mem q) := by
  rw [listExpiredCb, (hroll : (s.tm.detectClockRollover now).1 = false)] at hok
  have hrolled : (s.tm.detectClockRollover now).2.Ordered := h.ordered
  obtain ⟨htickled, hmem⟩ := takeExpired_mem hrolled hout hok
  have hdeadline : ∀ q ∈ tm.timer, q ∈ s.tm.timer ∧ (s.tm.mem q).next ≤ (tm.mem q).next ∧
      Started clock (tm.mem q) := by
    intro q hq
    obtain ⟨hqm, hsame | ⟨hrec, hdue, hwrite⟩⟩ := hmem q hq
    · have hsame : tm.mem q = s.tm.mem q := hsame
      rw [hsame]
      exact ⟨hqm, le_rfl, hstarted q hqm⟩
    · have hwrite : tm.mem q = { s.tm.mem q with next := addU64 now (s.tm.mem q).ms } := hwrite
      have hlt : now + (s.tm.mem q).ms < 2 ^ 64 := hfits q hqm hrec hdue
      have hdue : (s.tm.mem q).next ≤ now := hdue
      rw [hwrite]
      unfold Started
      simp only [addU64_of_lt hlt]
      exact ⟨hqm, by omega, by omega, by omega, hlt⟩
  exact ⟨⟨htickled, fun q hq => ⟨(hdeadline q hq).1, (hdeadline q hq).2.1⟩⟩,
    fun q hq => (hdeadline q hq).2.2⟩

/-- **Section lemma.** -/
theorem heard_next (h : s.Inv) (hstarted : ∀ p ∈ s.tm.timer, Started clock (s.tm.mem p))
    (hlisting : ∀ now ∈ s.listing, now ≤ clock) {a : Step P κ} (hnext : s.next a = some s')
    (hclock : ReadsClock clock a) (hfits : Fits s a) (hroll : NoRollover s a)
    (hnot : ∀ now, a ≠ .getNextTimer now) : Heard clock s a s' := by
  cases a with
  | addTimer p ms cb recurring now =>
    obtain ⟨hp, rfl⟩ := System.next_addTimer hnext
    have hout : p ∉ s.tm.timer := h.not_mem_of_added_none hp
    have ht : Started clock (Timer.mk recurring ms (addU64 now ms) (some cb)) := by
      have hlt : now + ms < 2 ^ 64 := hfits
      have hle : now ≤ clock := hclock
      unfold Started
      simp only [addU64_of_lt hlt]
      omega
    exact heard_addTimerLocked h.ordered (List.Sublist.refl _) hout ht hstarted rfl rfl hlisting
  | cancel p => exact heard_cancel h hstarted hlisting hnext
  | refresh p now =>
    obtain ⟨hp, rfl⟩ := System.next_refresh hnext
    obtain rfl : now = clock := hclock
    exact heard_refresh h hstarted hlisting hp hfits
  | reset p ms from_now now seen =>
    obtain ⟨hp, rfl⟩ := System.next_reset hnext
    obtain rfl : now = clock := hclock
    exact heard_reset h hstarted hlisting hp hfits
  | getNextTimer now => exact absurd rfl (hnot now)
  | listTest now =>
    rcases System.next_listTest hnext with rfl | rfl
    · exact .of_delays (.refl _) rfl hstarted hlisting
    · refine .of_delays (.refl _) rfl hstarted fun now' hnow' => ?_
      rcases List.mem_cons.mp hnow' with rfl | hnow'
      · exact hclock
      · exact hlisting now' hnow'
  | listTake now probe =>
    obtain ⟨hnow, hp, ⟨f, -, rfl⟩ | ⟨out, tm, hok, rfl⟩⟩ := System.next_listTake hnext
    · exact .of_delays (.refl _) rfl hstarted hlisting
    · have hout : probe ∉ s.tm.timer := h.not_mem_of_added_none hp
      obtain ⟨hdelays, hstarted'⟩ := started_listExpiredCb h hstarted (hlisting now hnow) hout
        hfits hroll hok
      refine .of_delays hdelays rfl hstarted' fun now' hnow' => ?_
      exact hlisting now' (List.mem_of_mem_erase hnow')

/-! ### Runs -/

/-- The invariant. -/
structure Inv (s : Alarm T P κ) : Prop where
  sys : s.sys.Inv
  started : ∀ p ∈ s.sys.tm.timer, Started s.clock (s.sys.tm.mem p)
  listing : ∀ now ∈ s.sys.listing, now ≤ s.clock
  notified : s.sys.tm.tickled = true ∨ s.sys.tm.earliest < s.armed → s.Notified

omit [DecidableEq T] in
theorem inv_init (mem : P → Timer κ) (now : ℕ) : (init mem now : Alarm T P κ).Inv where
  sys := System.inv_init mem now
  started _ hp := absurd hp List.not_mem_nil
  listing _ hnow := absurd hnow List.not_mem_nil
  notified := by
    rintro (h | h)
    · cases h
    · exact absurd h (lt_irrefl _)

theorem record_of_ne_getNextTimer (s : Alarm T P κ) (t : T) {a : Step P κ} (sys : System P κ)
    (hnot : ∀ now, a ≠ .getNextTimer now) :
    s.record t a sys =
      { s with
        sys := sys
        about := if atFront s.sys a then Function.update s.about t (some s.epoch)
          else s.about } := by
  cases a with
  | getNextTimer now => exact absurd rfl (hnot now)
  | _ => rfl

omit [LinearOrder P] in
/-- A call that is due stays due while another thread moves. -/
theorem Notified.update {s s' : Alarm T P κ} (h : s.Notified) {t : T} (hidle : s.about t = none)
    {e : Option ℕ} (hcalled : s'.called = s.called) (hepoch : s'.epoch = s.epoch)
    (habout : s'.about = Function.update s.about t e) : s'.Notified := by
  rcases h with h | ⟨t', ht'⟩
  · exact Or.inl (hcalled.trans h)
  · have hne : t' ≠ t := by
      rintro rfl
      rw [hidle] at ht'
      cases ht'
    exact Or.inr ⟨t', by rw [habout, Function.update_of_ne hne, ht', hepoch]⟩

/-- **Step lemma.** -/
theorem Inv.next {s s' : Alarm T P κ} (h : s.Inv) {a : Act T P κ} (hreg : Regular s a)
    (hnext : s.next a = some s') : s'.Inv := by
  cases a with
  | tick ms =>
    obtain rfl := Option.some.inj hnext
    exact
      { sys := h.sys
        started := fun p hp => (h.started p hp).mono (Nat.le_add_right _ ms)
        listing := fun now hnow => le_trans (h.listing now hnow) (Nat.le_add_right _ ms)
        notified := h.notified }
  | notify t =>
    simp only [Alarm.next] at hnext
    split_ifs at hnext
    obtain rfl := Option.some.inj hnext
    exact { sys := h.sys, started := h.started, listing := h.listing,
            notified := fun _ => Or.inl rfl }
  | op t a =>
    simp only [Alarm.next] at hnext
    split_ifs at hnext with hop
    obtain ⟨hidle, hclock⟩ := hop
    obtain ⟨sys, hsys, rfl⟩ := Option.map_eq_some_iff.mp hnext
    obtain ⟨hfits, hroll⟩ := hreg
    by_cases hget : ∃ now, a = .getNextTimer now
    · -- a new epoch: `m_tickled` is false and nothing is earlier than what has just been seen
      obtain ⟨now, rfl⟩ := hget
      have heq := System.next_getNextTimer hsys
      rw [getNextTimer_snd] at heq
      subst heq
      refine ⟨h.sys.next hsys, h.started, h.listing, ?_⟩
      rintro (h | h)
      · cases h
      · exact absurd h (lt_irrefl _)
    · have hnot : ∀ now, a ≠ .getNextTimer now := fun now heq => hget ⟨now, heq⟩
      have hheard := heard_next h.sys h.started h.listing hsys hclock hfits hroll hnot
      rw [record_of_ne_getNextTimer s t sys hnot]
      refine ⟨h.sys.next hsys, hheard.started, hheard.listing, fun hearly => ?_⟩
      by_cases hfront : atFront s.sys a = true
      · exact Or.inr ⟨t, by simp [hfront]⟩
      · have hbefore : s.sys.tm.tickled = true ∨ s.sys.tm.earliest < s.armed := by
          rcases hearly with htickled | hearly
          · have htickled : sys.tm.tickled = true := htickled
            rw [hheard.tickled, Bool.or_eq_true] at htickled
            exact Or.inl (htickled.resolve_right hfront)
          · exact (hheard.early _ hearly).resolve_left hfront
        refine (h.notified hbefore).update (e := s.about t) hidle rfl rfl ?_
        simp [hfront]

/-- **No lost wake-up.** In every state of a run with a clock that never goes back, no overflow of
a deadline and no rollover reported: when a timer is due before everything that the last
`getNextTimer` has seen, `onTimerInsertedAtFront` has been called since, or a thread that has set
`m_tickled` since is about to call it. -/
theorem notified_of_run {mem : P → Timer κ} {now : ℕ} {as : List (Act T P κ)} {s : Alarm T P κ}
    (hrun : Transition.run next (init mem now) as = some s)
    (hreg : Transition.StepsMeet next Regular (init mem now) as)
    (hearly : s.sys.tm.earliest < s.armed) : s.Notified := by
  have h : s.Inv := Transition.invariant_of_stepsMeet Inv
    (fun _ _ _ h hreg hnext => h.next hreg hnext) (inv_init mem now) hreg hrun
  exact h.notified (Or.inr hearly)

/-- A timer of 50 ms is seen by `getNextTimer`; then another thread adds one of 10 ms and is about
to call. -/
theorem notified_of_run_shorter :
    ∃ s : Alarm ℕ ℕ ℕ,
      Transition.run next (init (fun _ => ⟨false, 0, 0, none⟩) 100)
        [.op 1 (.addTimer 1 50 7 false 100), .notify 1, .op 0 (.getNextTimer 100), .tick 5,
          .op 1 (.addTimer 2 10 8 false 105)] = some s ∧
      s.sys.tm.earliest < s.armed ∧ s.Notified := by
  refine ⟨_, rfl, by decide, @notified_of_run ℕ ℕ ℕ _ _ (fun _ => ⟨false, 0, 0, none⟩) 100
    [.op 1 (.addTimer 1 50 7 false 100), .notify 1, .op 0 (.getNextTimer 100), .tick 5,
      .op 1 (.addTimer 2 10 8 false 105)] _ rfl ?_ (by decide)⟩
  refine .cons rfl ⟨?_, trivial⟩ (.cons rfl trivial (.cons rfl ⟨trivial, trivial⟩
    (.cons rfl trivial (.cons rfl ⟨?_, trivial⟩ trivial))))
  · show 100 + 50 < 2 ^ 64
    omega
  · show 105 + 10 < 2 ^ 64
    omega

end Alarm

end TimerManager

end Muhui
