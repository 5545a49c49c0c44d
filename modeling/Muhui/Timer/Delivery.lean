/-
  Delivery of timers: every timer lives once.

  `Life` says what a timer is for, apart from clocks and ordered sets: it is added, it stays armed
  until its callback is handed out or it is cancelled, and after that nothing happens to it; a
  recurring timer stays armed when its callback is handed out.  `State` is a `TimerManager` with
  the threads that use it, one step for each section under `m_mutex`, and a log of what the
  callers see.  The simulation invariant `Inv` says that the log of every timer is a life and that
  `m_timer` holds exactly the armed timers; the guarantees of delivery are read off from it.

  A `Timer` object that is allocated where an older one has died is a different object: `P` stands
  for addresses with an age, ordered by address first.
-/
import Mathlib.Data.Nat.Basic
import Muhui.Container.KeyedLog
import Muhui.Timer.Operations
import Muhui.Transition.Run

namespace Muhui

variable {P κ : Type*}

/-! ### The life of one timer -/

/-- What happens to a timer as its owner sees it. -/
inductive TimerEvent (κ : Type*)
  /-- `addTimer` returned it. -/
  | added (recurring : Bool)
  /-- `listExpiredCb` handed out its callback. -/
  | handed (cb : Option κ)
  /-- `cancel` returned true. -/
  | cancelled
  deriving DecidableEq

namespace TimerEvent

def isHanded : TimerEvent κ → Bool
  | handed _ => true
  | _ => false

def isCancelled : TimerEvent κ → Bool
  | cancelled => true
  | _ => false

end TimerEvent

/-- The stages of a timer's life.  Only a timer that is not recurring can be fired. -/
inductive Life
  | unborn
  | armed (recurring : Bool)
  | fired
  | cancelled (recurring : Bool)
  deriving DecidableEq

namespace Life

/-- The life of a timer, one event at a time. -/
def step : Life → TimerEvent κ → Option Life
  | unborn, .added recurring => some (armed recurring)
  | armed recurring, .handed _ => some (if recurring then armed true else fired)
  | armed recurring, .cancelled => some (cancelled recurring)
  | _, _ => none

/-- The timer was added once, with the flag `recurring`. -/
def Born (recurring : Bool) (h : List (TimerEvent κ)) : Prop :=
  .added recurring ∈ h ∧ ∀ r, .added r ∈ h → r = recurring

/-- What has happened to a timer at a stage of its life. -/
def Tells : Life → List (TimerEvent κ) → Prop
  | unborn, h => h = []
  | armed recurring, h =>
    Born recurring h ∧ .cancelled ∉ h ∧ (recurring = false → ∀ cb, .handed cb ∉ h)
  | fired, h => Born false h ∧ .cancelled ∉ h ∧ ∃ cb, .handed cb ∈ h
  | cancelled recurring, h =>
    Born recurring h ∧ .cancelled ∈ h ∧ (recurring = false → ∀ cb, .handed cb ∉ h)

theorem Born.append {recurring : Bool} {h : List (TimerEvent κ)} {e : TimerEvent κ}
    (hborn : Born recurring h) (he : ∀ r, e ≠ .added r) : Born recurring (h ++ [e]) := by
  refine ⟨List.mem_append_left _ hborn.1, fun r hr => ?_⟩
  rcases List.mem_append.mp hr with hr | hr
  · exact hborn.2 r hr
  · exact absurd (List.mem_singleton.mp hr).symm (he r)

theorem tells_step {l l' : Life} {e : TimerEvent κ} {h : List (TimerEvent κ)}
    (hl : l.Tells h) (hstep : l.step e = some l') : l'.Tells (h ++ [e]) := by
  cases l <;> cases e <;> simp only [step, Option.some.injEq, reduceCtorEq] at hstep
  case unborn.added recurring =>
    subst hstep
    obtain rfl : h = [] := hl
    simp [Tells, Born]
  case armed.handed recurring cb =>
    obtain ⟨hborn, hnot, -⟩ := hl
    have hborn' := hborn.append (e := .handed cb) (by simp)
    cases recurring
    · subst hstep
      exact ⟨hborn', by simpa using hnot, cb, by simp⟩
    · subst hstep
      exact ⟨hborn', by simpa using hnot, by simp⟩
  case armed.cancelled recurring =>
    subst hstep
    obtain ⟨hborn, -, hnot⟩ := hl
    exact ⟨hborn.append (by simp), by simp, by simpa using hnot⟩

/-- **The stage tells the history.** -/
theorem tells_of_run {h h' : List (TimerEvent κ)} {l l' : Life} (hl : l.Tells h)
    (hrun : Transition.run step l h' = some l') : l'.Tells (h ++ h') := by
  induction h' generalizing l h with
  | nil =>
    obtain rfl := Option.some.inj hrun
    rwa [List.append_nil]
  | cons e h' ih =>
    obtain ⟨l₁, hstep, hrun⟩ := Transition.run_cons_eq_some.mp hrun
    rw [List.append_cons]
    exact ih (tells_step hl hstep) hrun

/-- No event follows a final stage. -/
theorem eq_nil_of_final {l l' : Life} {h : List (TimerEvent κ)}
    (hl : l = fired ∨ ∃ recurring, l = cancelled recurring)
    (hrun : Transition.run step l h = some l') : h = [] := by
  cases h with
  | nil => rfl
  | cons e h =>
    obtain ⟨l₁, hstep, -⟩ := Transition.run_cons_eq_some.mp hrun
    rcases hl with rfl | ⟨recurring, rfl⟩ <;> cases e <;> cases hstep

/-- A cancellation is the last event of a life. -/
theorem nothing_after_cancelled {l : Life} {pre post : List (TimerEvent κ)}
    (hrun : Transition.run step unborn (pre ++ .cancelled :: post) = some l) : post = [] := by
  rw [Transition.run_append, Option.bind_eq_some_iff] at hrun
  obtain ⟨l₁, -, hrun⟩ := hrun
  obtain ⟨l₂, hstep, hrun⟩ := Transition.run_cons_eq_some.mp hrun
  refine eq_nil_of_final ?_ hrun
  cases l₁ <;> cases hstep
  exact Or.inr ⟨_, rfl⟩

/-- The delivery of a timer that is not recurring is the last event of its life. -/
theorem nothing_after_handed {l : Life} {pre post : List (TimerEvent κ)} {cb : Option κ}
    (hrun : Transition.run step unborn (pre ++ .handed cb :: post) = some l)
    (honce : ∀ recurring, .added recurring ∈ pre → recurring = false) : post = [] := by
  rw [Transition.run_append, Option.bind_eq_some_iff] at hrun
  obtain ⟨l₁, hpre, hrun⟩ := hrun
  obtain ⟨l₂, hstep, hrun⟩ := Transition.run_cons_eq_some.mp hrun
  have htells : l₁.Tells ([] ++ pre) := tells_of_run (l := unborn) rfl hpre
  refine eq_nil_of_final ?_ hrun
  cases l₁ <;> simp only [step, Option.some.injEq, reduceCtorEq] at hstep
  case armed recurring =>
    obtain rfl := honce recurring htells.1.1
    exact Or.inl hstep.symm

end Life

/-- At most one element satisfies `q` when each one that does is the last. -/
theorem countP_le_one {α : Type*} {q : α → Bool} {l : List α}
    (hlast : ∀ pre a post, l = pre ++ a :: post → q a = true → post = []) :
    l.countP q ≤ 1 := by
  induction l with
  | nil => simp
  | cons b l ih =>
    rw [List.countP_cons]
    by_cases hb : q b = true
    · obtain rfl : l = [] := hlast [] b l rfl hb
      simp [hb]
    · rw [if_neg hb]
      exact ih fun pre a post heq => hlast (b :: pre) a post (by rw [heq, List.cons_append])

/-! ### The timers of a running program -/

namespace TimerManager

/-- A `TimerManager` in use. -/
structure System (P κ : Type*) where
  tm : TimerManager P κ
  /-- The callback each timer was added with; `none` for addresses without a timer. -/
  added : P → Option κ
  /-- The calls of `listExpiredCb` that have passed the emptiness test: their clock readings. -/
  listing : List ℕ
  /-- What the callers have seen, oldest first. -/
  log : List (P × TimerEvent κ)
  /-- The fault that has stopped the program. -/
  crashed : Option IteratorFault

/-- The sections under `m_mutex`. -/
inductive Step (P κ : Type*)
  | addTimer (p : P) (ms : ℕ) (cb : κ) (recurring : Bool) (now : ℕ)
  | cancel (p : P)
  | refresh (p : P) (now : ℕ)
  | reset (p : P) (ms : ℕ) (from_now : Bool) (now seen : ℕ)
  | getNextTimer (now : ℕ)
  /-- `listExpiredCb` reads the clock and tests for emptiness. -/
  | listTest (now : ℕ)
  /-- `listExpiredCb` goes on with the clock reading `now` under the write lock. -/
  | listTake (now : ℕ) (probe : P)

namespace System

variable [LinearOrder P]

def init (mem : P → Timer κ) (now : ℕ) : System P κ :=
  { tm := .new mem now, added := fun _ => none, listing := [], log := [], crashed := none }

/-- What has happened to the timer at `p`. -/
def history (p : P) (log : List (P × TimerEvent κ)) : List (TimerEvent κ) :=
  log.filterMap fun e => if e.1 = p then some e.2 else none

/-- One step of a program that uses the timers.  A timer can only be named after `addTimer` has
returned it, and nothing happens after a fault. -/
def next (s : System P κ) (a : Step P κ) : Option (System P κ) :=
  if s.crashed.isSome then none
  else
    match a with
    | .addTimer p ms cb recurring now =>
      if (s.added p).isSome then none
      else
        some { s with
          tm := (s.tm.addTimer p ms (some cb) recurring now).2
          added := Function.update s.added p (some cb)
          log := s.log ++ [(p, .added recurring)] }
    | .cancel p =>
      if (s.added p).isSome then
        match s.tm.cancel p with
        | .error f => some { s with crashed := some f }
        | .ok (true, tm) => some { s with tm := tm, log := s.log ++ [(p, .cancelled)] }
        | .ok (false, tm) => some { s with tm := tm }
      else none
    | .refresh p now =>
      if (s.added p).isSome then some { s with tm := (s.tm.refresh p now).2 } else none
    | .reset p ms from_now now seen =>
      if (s.added p).isSome then some { s with tm := (s.tm.reset p ms from_now now seen).2.2 }
      else none
    | .getNextTimer now => some { s with tm := (s.tm.getNextTimer now).2 }
    | .listTest now =>
      if s.tm.timer.isEmpty then some s else some { s with listing := now :: s.listing }
    | .listTake now probe =>
      if now ∈ s.listing ∧ (s.added probe).isNone then
        match s.tm.listExpiredCb now probe with
        | .error f => some { s with crashed := some f }
        | .ok (out, tm) =>
          some { s with
            tm := tm
            listing := s.listing.erase now
            log := s.log ++ out.map fun e => (e.1, .handed e.2) }
      else none

/-! ### What a step does -/

section Step

variable {s s' : System P κ} {p : P} {now : ℕ}

theorem not_crashed_of_next {a : Step P κ} (hnext : s.next a = some s') :
    ¬s.crashed.isSome = true := by
  intro hcrashed
  unfold next at hnext
  rw [if_pos hcrashed] at hnext
  cases hnext

theorem next_addTimer {ms : ℕ} {cb : κ} {recurring : Bool}
    (hnext : s.next (.addTimer p ms cb recurring now) = some s') :
    s.added p = none ∧ s' = { s with
      tm := (s.tm.addTimer p ms (some cb) recurring now).2
      added := Function.update s.added p (some cb)
      log := s.log ++ [(p, .added recurring)] } := by
  simp only [next] at hnext
  split_ifs at hnext with hcrashed hp
  exact ⟨by simpa using hp, (Option.some.inj hnext).symm⟩

theorem next_cancel (hnext : s.next (.cancel p) = some s') :
    (s.added p).isSome ∧
      ((∃ f, s.tm.cancel p = .error f ∧ s' = { s with crashed := some f }) ∨
        (∃ tm, s.tm.cancel p = .ok (true, tm) ∧
          s' = { s with tm := tm, log := s.log ++ [(p, .cancelled)] }) ∨
        ∃ tm, s.tm.cancel p = .ok (false, tm) ∧ s' = { s with tm := tm }) := by
  simp only [next] at hnext
  split_ifs at hnext with hcrashed hp
  refine ⟨hp, ?_⟩
  split at hnext
  next f herr => exact .inl ⟨f, herr, (Option.some.inj hnext).symm⟩
  next tm hok => exact .inr (.inl ⟨tm, hok, (Option.some.inj hnext).symm⟩)
  next tm hok => exact .inr (.inr ⟨tm, hok, (Option.some.inj hnext).symm⟩)

theorem next_refresh (hnext : s.next (.refresh p now) = some s') :
    (s.added p).isSome ∧ s' = { s with tm := (s.tm.refresh p now).2 } := by
  simp only [next] at hnext
  split_ifs at hnext with hcrashed hp
  exact ⟨hp, (Option.some.inj hnext).symm⟩

theorem next_reset {ms seen : ℕ} {from_now : Bool}
    (hnext : s.next (.reset p ms from_now now seen) = some s') :
    (s.added p).isSome ∧ s' = { s with tm := (s.tm.reset p ms from_now now seen).2.2 } := by
  simp only [next] at hnext
  split_ifs at hnext with hcrashed hp
  exact ⟨hp, (Option.some.inj hnext).symm⟩

theorem next_getNextTimer (hnext : s.next (.getNextTimer now) = some s') :
    s' = { s with tm := (s.tm.getNextTimer now).2 } := by
  simp only [next] at hnext
  split_ifs at hnext
  exact (Option.some.inj hnext).symm

theorem next_listTest (hnext : s.next (.listTest now) = some s') :
    s' = s ∨ s' = { s with listing := now :: s.listing } := by
  simp only [next] at hnext
  split_ifs at hnext
  · exact .inl (Option.some.inj hnext).symm
  · exact .inr (Option.some.inj hnext).symm

theorem next_listTake {probe : P} (hnext : s.next (.listTake now probe) = some s') :
    now ∈ s.listing ∧ s.added probe = none ∧
      ((∃ f, s.tm.listExpiredCb now probe = .error f ∧ s' = { s with crashed := some f }) ∨
        ∃ out tm, s.tm.listExpiredCb now probe = .ok (out, tm) ∧ s' = { s with
          tm := tm
          listing := s.listing.erase now
          log := s.log ++ out.map fun e => (e.1, .handed e.2) }) := by
  simp only [next] at hnext
  split_ifs at hnext with hcrashed hcall
  refine ⟨hcall.1, Option.isNone_iff_eq_none.mp hcall.2, ?_⟩
  split at hnext
  next f herr => exact .inl ⟨f, herr, (Option.some.inj hnext).symm⟩
  next out tm hok => exact .inr ⟨out, tm, hok, (Option.some.inj hnext).symm⟩

end Step

/-! ### The simulation -/

/-- The timer at `p` is at stage `l`: `m_timer` holds the armed timers, and only they have a
callback. -/
def IsAt (s : System P κ) (p : P) : Life → Prop
  | .unborn => s.added p = none ∧ p ∉ s.tm.timer
  | .armed recurring =>
    (s.added p).isSome ∧ p ∈ s.tm.timer ∧ (s.tm.mem p).cb = s.added p ∧
      (s.tm.mem p).recurring = recurring
  | .fired =>
    (s.added p).isSome ∧ p ∉ s.tm.timer ∧ (s.tm.mem p).cb = none ∧
      (s.tm.mem p).recurring = false
  | .cancelled recurring =>
    (s.added p).isSome ∧ p ∉ s.tm.timer ∧ (s.tm.mem p).cb = none ∧
      (s.tm.mem p).recurring = recurring

/-- The log of the timer at `p` is a life, and the timer is where that life has led to. -/
def Lives (s : System P κ) (p : P) : Prop :=
  ∃ l, Transition.run Life.step .unborn (history p s.log) = some l ∧ s.IsAt p l

/-- The simulation invariant. -/
structure Inv (s : System P κ) : Prop where
  ordered : s.tm.Ordered
  lives : ∀ p, s.Lives p
  handed : ∀ p cb, (p, .handed cb) ∈ s.log → cb = s.added p ∧ cb.isSome
  crashed : s.crashed ≠ some .eraseEnd

theorem history_append (p : P) (log log' : List (P × TimerEvent κ)) :
    history p (log ++ log') = history p log ++ history p log' :=
  KeyedLog.entries_append p log log'

theorem history_singleton (p q : P) (e : TimerEvent κ) :
    history p [(q, e)] = if q = p then [e] else [] :=
  KeyedLog.entries_singleton p q e

theorem mem_history {p : P} {e : TimerEvent κ} {log : List (P × TimerEvent κ)} :
    e ∈ history p log ↔ (p, e) ∈ log :=
  KeyedLog.mem_entries

/-- In one call of `listExpiredCb` a timer sees its own delivery only. -/
theorem history_handed (p : P) (f : P → Option κ) {qs : List P} (hqs : qs.Nodup) :
    history p ((qs.map fun q => (q, f q)).map fun e => (e.1, TimerEvent.handed e.2)) =
      if p ∈ qs then [.handed (f p)] else [] := by
  rw [List.map_map]
  exact KeyedLog.entries_map p (fun q => TimerEvent.handed (f q)) hqs

omit [LinearOrder P] in
theorem IsAt.congr {s s' : System P κ} {p : P} {l : Life} (h : s.IsAt p l)
    (hadded : s'.added p = s.added p) (htimer : p ∈ s'.tm.timer ↔ p ∈ s.tm.timer)
    (hcb : (s'.tm.mem p).cb = (s.tm.mem p).cb)
    (hrec : (s'.tm.mem p).recurring = (s.tm.mem p).recurring) : s'.IsAt p l := by
  cases l <;> simpa only [IsAt, hadded, htimer, hcb, hrec] using h

theorem Lives.congr {s s' : System P κ} {p : P} (h : s.Lives p)
    (hhistory : history p s'.log = history p s.log) (hadded : s'.added p = s.added p)
    (htimer : p ∈ s'.tm.timer ↔ p ∈ s.tm.timer)
    (hcb : (s'.tm.mem p).cb = (s.tm.mem p).cb)
    (hrec : (s'.tm.mem p).recurring = (s.tm.mem p).recurring) : s'.Lives p := by
  obtain ⟨l, hrun, hat⟩ := h
  exact ⟨l, by rw [hhistory, hrun], hat.congr hadded htimer hcb hrec⟩

/-- One event carries a life from stage to stage. -/
theorem Lives.snoc {s s' : System P κ} {p : P} {l : Life} (e : TimerEvent κ) (l' : Life)
    (hrun : Transition.run Life.step .unborn (history p s.log) = some l)
    (hstep : l.step e = some l') (hhistory : history p s'.log = history p s.log ++ [e])
    (hat : s'.IsAt p l') : s'.Lives p := by
  refine ⟨l', ?_, hat⟩
  rw [hhistory, Transition.run_append, hrun, Option.bind_some]
  exact Transition.run_cons_eq_some.mpr ⟨l', hstep, rfl⟩

variable {s s' : System P κ}

/-- An added timer is armed exactly when it is in the set; otherwise it has no callback. -/
theorem Inv.armed_of_mem (h : s.Inv) {p : P} (hp : p ∈ s.tm.timer) :
    (s.added p).isSome ∧ (s.tm.mem p).cb = s.added p ∧
      Transition.run Life.step .unborn (history p s.log) =
        some (.armed (s.tm.mem p).recurring) := by
  obtain ⟨l, hrun, hat⟩ := h.lives p
  cases l with
  | unborn => exact absurd hp hat.2
  | armed recurring =>
    obtain ⟨hadded, -, hcb, hrec⟩ := hat
    exact ⟨hadded, hcb, by rw [hrun, hrec]⟩
  | fired => exact absurd hp hat.2.1
  | cancelled recurring => exact absurd hp hat.2.1

theorem Inv.cb_of_not_mem (h : s.Inv) {p : P} (hadded : (s.added p).isSome)
    (hp : p ∉ s.tm.timer) : (s.tm.mem p).cb = none := by
  obtain ⟨l, -, hat⟩ := h.lives p
  cases l with
  | unborn =>
    rw [hat.1] at hadded
    cases hadded
  | armed recurring => exact absurd hat.2.1 hp
  | fired => exact hat.2.2.1
  | cancelled recurring => exact hat.2.2.1

theorem Inv.not_mem_of_added_none (h : s.Inv) {p : P} (hadded : s.added p = none) :
    p ∉ s.tm.timer := by
  intro hp
  have hsome := (h.armed_of_mem hp).1
  rw [hadded] at hsome
  cases hsome

/-- Operations that only touch deadlines keep the invariant. -/
theorem Inv.of_sameLife (h : s.Inv) {tm : TimerManager P κ} (hsame : SameLife s.tm tm) :
    Inv { s with tm := tm } where
  ordered := hsame.ordered
  lives p := (h.lives p).congr rfl rfl (hsame.mem_iff p) (hsame.cb p) (hsame.recurring p)
  handed := h.handed
  crashed := h.crashed

theorem Inv.addTimer (h : s.Inv) {p : P} (hp : s.added p = none) (ms : ℕ) (cb : κ)
    (recurring : Bool) (now : ℕ) :
    Inv { s with
      tm := (s.tm.addTimer p ms (some cb) recurring now).2
      added := Function.update s.added p (some cb)
      log := s.log ++ [(p, .added recurring)] } where
  ordered := addTimer_ordered h.ordered (h.not_mem_of_added_none hp) ms (some cb) recurring now
  lives q := by
    by_cases hqp : q = p
    · subst hqp
      obtain ⟨l, hrun, hat⟩ := h.lives q
      have hl : l = .unborn := by
        cases l with
        | unborn => rfl
        | armed r | fired | cancelled r => simp [IsAt, hp] at hat
      subst hl
      refine Lives.snoc (.added recurring) (.armed recurring) hrun rfl
        (by simp [history_append, history_singleton]) ?_
      refine ⟨by simp, addTimer_timer .. |>.mpr (Or.inl rfl), ?_, ?_⟩ <;>
        simp [addTimer_mem]
    · refine (h.lives q).congr ?_ ?_ ?_ ?_ ?_
      · simp [history_append, history_singleton, Ne.symm hqp]
      · exact Function.update_of_ne hqp _ _
      · rw [addTimer_timer, or_iff_right hqp]
      · rw [addTimer_mem, Function.update_of_ne hqp]
      · rw [addTimer_mem, Function.update_of_ne hqp]
  handed q c hlog := by
    have hlog : (q, .handed c) ∈ s.log := by simpa using hlog
    obtain ⟨hc, hsome⟩ := h.handed q c hlog
    have hqp : q ≠ p := by
      rintro rfl
      rw [hc, hp] at hsome
      cases hsome
    exact ⟨hc.trans (Function.update_of_ne hqp _ _).symm, hsome⟩
  crashed := h.crashed

/-- `cancel` does what its caller expects: it finds the timer exactly when it is in the set. -/
theorem Inv.cancel_eq (h : s.Inv) {p : P} (hadded : (s.added p).isSome) :
    s.tm.cancel p =
      if p ∈ s.tm.timer then
        .ok (true,
          { s.tm.store p { s.tm.mem p with cb := none } with timer := s.tm.timer.erase p })
      else .ok (false, s.tm) := by
  split_ifs with hp
  · exact cancel_of_mem h.ordered hp (by rw [(h.armed_of_mem hp).2.1, hadded])
  · exact cancel_of_cb_none (h.cb_of_not_mem hadded hp)

/-- `cancel` takes a timer out of the set, or does nothing. -/
theorem Inv.cancel_next (h : s.Inv) {p : P} (hnext : s.next (.cancel p) = some s') :
    p ∈ s.tm.timer ∧ s' = { s with
      tm := { s.tm.store p { s.tm.mem p with cb := none } with timer := s.tm.timer.erase p }
      log := s.log ++ [(p, .cancelled)] } ∨ p ∉ s.tm.timer ∧ s' = s := by
  obtain ⟨hp, hcancel⟩ := next_cancel hnext
  rw [h.cancel_eq hp] at hcancel
  by_cases hmem : p ∈ s.tm.timer
  · simp only [if_pos hmem] at hcancel
    rcases hcancel with ⟨f, herr, -⟩ | ⟨tm, hok, rfl⟩ | ⟨tm, hok, -⟩
    · cases herr
    · obtain rfl := congrArg Prod.snd (Except.ok.inj hok)
      exact .inl ⟨hmem, rfl⟩
    · cases hok
  · simp only [if_neg hmem] at hcancel
    rcases hcancel with ⟨f, herr, -⟩ | ⟨tm, hok, -⟩ | ⟨tm, hok, rfl⟩
    · cases herr
    · cases hok
    · obtain rfl := congrArg Prod.snd (Except.ok.inj hok)
      exact .inr ⟨hmem, rfl⟩

theorem Inv.cancelled (h : s.Inv) {p : P} (hp : p ∈ s.tm.timer) :
    Inv { s with
      tm := { s.tm.store p { s.tm.mem p with cb := none } with timer := s.tm.timer.erase p }
      log := s.log ++ [(p, .cancelled)] } where
  ordered := by
    refine h.ordered.of_sublist List.erase_sublist fun q hq => ?_
    have hqp : q ≠ p := fun heq => h.ordered.nodup.not_mem_erase (heq ▸ hq)
    exact congrArg Timer.next (store_mem_of_ne hqp _)
  lives q := by
    have hmem := h.ordered.nodup.mem_erase_iff (a := q) (b := p)
    by_cases hqp : q = p
    · subst hqp
      obtain ⟨hadded, -, hrun⟩ := h.armed_of_mem hp
      refine Lives.snoc .cancelled (.cancelled _) hrun rfl
        (by simp [history_append, history_singleton]) ?_
      refine ⟨hadded, fun hq => (hmem.mp hq).1 rfl, ?_, ?_⟩ <;> simp [store]
    · refine (h.lives q).congr ?_ rfl ?_ ?_ ?_
      · simp [history_append, history_singleton, Ne.symm hqp]
      · exact hmem.trans (and_iff_right hqp)
      · exact congrArg Timer.cb (store_mem_of_ne hqp _)
      · exact congrArg Timer.recurring (store_mem_of_ne hqp _)
  handed q c hlog := h.handed q c (by simpa using hlog)
  crashed := h.crashed

theorem Inv.listed (h : s.Inv) {now : ℕ} {probe : P} {out : List (P × Option κ)}
    {tm : TimerManager P κ} (hok : s.tm.listExpiredCb now probe = .ok (out, tm))
    (listing : List ℕ) :
    Inv { s with
      tm := tm
      listing := listing
      log := s.log ++ out.map fun e => (e.1, .handed e.2) } := by
  obtain ⟨qs, rest, htimer, rfl, hexp⟩ := listExpiredCb_spec h.ordered hok
  have hnodup : (qs ++ rest).Nodup := htimer ▸ h.ordered.nodup
  obtain ⟨hqs, -, hdisj⟩ := List.nodup_append.mp hnodup
  have hmem : ∀ q, q ∈ s.tm.timer ↔ q ∈ qs ∨ q ∈ rest := by
    intro q
    rw [htimer, List.mem_append]
  constructor
  case ordered => exact hexp.ordered
  case crashed => exact h.crashed
  case lives =>
    intro q
    have hhistory : history q (s.log ++ (qs.map fun q => (q, (s.tm.mem q).cb)).map
        fun e => (e.1, TimerEvent.handed e.2)) =
        history q s.log ++ if q ∈ qs then [.handed (s.tm.mem q).cb] else [] := by
      rw [history_append, history_handed q (fun q => (s.tm.mem q).cb) hqs]
    by_cases hq : q ∈ qs
    · rw [if_pos hq] at hhistory
      obtain ⟨hadded, hcb, hrun⟩ := h.armed_of_mem ((hmem q).mpr (Or.inl hq))
      have hrest : q ∉ rest := fun hq' => hdisj q hq q hq' rfl
      cases hrec : (s.tm.mem q).recurring with
      | true =>
        rw [hrec] at hrun
        refine Lives.snoc _ (.armed true) hrun rfl hhistory ⟨hadded, ?_, ?_, ?_⟩
        · exact (hexp.mem_iff q).mpr (Or.inr ⟨hq, hrec⟩)
        · rw [hexp.cb, if_neg (by simp [hrec])]
          exact hcb
        · rw [hexp.recurring]
          exact hrec
      | false =>
        rw [hrec] at hrun
        refine Lives.snoc _ .fired hrun rfl hhistory ⟨hadded, ?_, ?_, ?_⟩
        · rw [hexp.mem_iff]
          simp [hrest, hrec]
        · rw [hexp.cb, if_pos ⟨hq, hrec⟩]
        · rw [hexp.recurring]
          exact hrec
    · rw [if_neg hq, List.append_nil] at hhistory
      refine (h.lives q).congr hhistory rfl ?_ ?_ (hexp.recurring q)
      · rw [hexp.mem_iff, hmem]
        simp [hq]
      · rw [hexp.cb, if_neg (by simp [hq])]
  case handed =>
    intro q c hlog
    rcases List.mem_append.mp hlog with hlog | hlog
    · exact h.handed q c hlog
    · simp only [List.map_map, List.mem_map, Function.comp_apply, Prod.mk.injEq,
        TimerEvent.handed.injEq] at hlog
      obtain ⟨q, hq, rfl, rfl⟩ := hlog
      obtain ⟨hadded, hcb, -⟩ := h.armed_of_mem ((hmem q).mpr (Or.inl hq))
      exact ⟨hcb, by rw [hcb, hadded]⟩

/-- **Step lemma.** -/
theorem Inv.next (h : s.Inv) {a : Step P κ} (hnext : s.next a = some s') : s'.Inv := by
  cases a with
  | addTimer p ms cb recurring now =>
    obtain ⟨hp, rfl⟩ := next_addTimer hnext
    exact h.addTimer hp ms cb recurring now
  | cancel p =>
    rcases h.cancel_next hnext with ⟨hmem, rfl⟩ | ⟨-, rfl⟩
    · exact h.cancelled hmem
    · exact h
  | refresh p now =>
    obtain ⟨hp, rfl⟩ := next_refresh hnext
    by_cases hmem : p ∈ s.tm.timer
    · exact h.of_sameLife (refresh_sameLife h.ordered hmem now)
    · rw [refresh_of_cb_none (h.cb_of_not_mem hp hmem)]
      exact h
  | reset p ms from_now now seen =>
    obtain ⟨hp, rfl⟩ := next_reset hnext
    by_cases hmem : p ∈ s.tm.timer
    · exact h.of_sameLife (reset_sameLife h.ordered hmem ms from_now now seen)
    · rw [reset_of_cb_none (h.cb_of_not_mem hp hmem)]
      exact h
  | getNextTimer now =>
    obtain rfl := next_getNextTimer hnext
    exact h.of_sameLife (getNextTimer_sameLife h.ordered now)
  | listTest now =>
    rcases next_listTest hnext with rfl | rfl
    · exact h
    · exact ⟨h.ordered, h.lives, h.handed, h.crashed⟩
  | listTake now probe =>
    obtain ⟨-, -, ⟨f, herr, rfl⟩ | ⟨out, tm, hok, rfl⟩⟩ := next_listTake hnext
    · obtain ⟨rfl, -⟩ := listExpiredCb_error herr
      exact ⟨h.ordered, h.lives, h.handed, by simp⟩
    · exact h.listed hok _

theorem inv_init (mem : P → Timer κ) (now : ℕ) : (init mem now).Inv where
  ordered := List.Pairwise.nil
  lives _ := ⟨.unborn, rfl, rfl, List.not_mem_nil⟩
  handed _ _ hlog := absurd hlog List.not_mem_nil
  crashed := by simp [init]

/-- **Run lemma.** -/
theorem inv_of_run {mem : P → Timer κ} {now : ℕ} {as : List (Step P κ)}
    (hrun : Transition.run next (init mem now) as = some s) : s.Inv :=
  Transition.invariant_of_run Inv (fun _ _ _ h hnext => h.next hnext) (inv_init mem now) hrun

/-! ### What one step adds to the log -/

/-- A step only appends to the log; only `cancel` logs a cancellation, and only `listExpiredCb` a
delivery. -/
theorem log_next {a : Step P κ} (hnext : s.next a = some s') :
    ∃ delta, s'.log = s.log ++ delta ∧ (∀ p, (p, .cancelled) ∈ delta → a = .cancel p) ∧
      ∀ p cb, (p, .handed cb) ∈ delta → ∃ now probe, a = .listTake now probe := by
  have hsame {s' : System P κ} (hlog : s'.log = s.log) :
      ∃ delta, s'.log = s.log ++ delta ∧ (∀ p, (p, .cancelled) ∈ delta → a = .cancel p) ∧
        ∀ p cb, (p, .handed cb) ∈ delta → ∃ now probe, a = .listTake now probe :=
    ⟨[], by rw [hlog, List.append_nil], by simp, by simp⟩
  cases a with
  | addTimer p ms cb recurring now =>
    obtain ⟨-, rfl⟩ := next_addTimer hnext
    exact ⟨_, rfl, by simp, by simp⟩
  | cancel p =>
    obtain ⟨-, ⟨f, -, rfl⟩ | ⟨tm, -, rfl⟩ | ⟨tm, -, rfl⟩⟩ := next_cancel hnext
    · exact hsame rfl
    · refine ⟨_, rfl, fun q hq => ?_, by simp⟩
      rw [(Prod.mk.inj (List.mem_singleton.mp hq)).1]
    · exact hsame rfl
  | refresh p now =>
    obtain ⟨-, rfl⟩ := next_refresh hnext
    exact hsame rfl
  | reset p ms from_now now seen =>
    obtain ⟨-, rfl⟩ := next_reset hnext
    exact hsame rfl
  | getNextTimer now =>
    obtain rfl := next_getNextTimer hnext
    exact hsame rfl
  | listTest now =>
    rcases next_listTest hnext with rfl | rfl
    · exact hsame rfl
    · exact hsame rfl
  | listTake now probe =>
    obtain ⟨-, -, ⟨f, -, rfl⟩ | ⟨out, tm, -, rfl⟩⟩ := next_listTake hnext
    · exact hsame rfl
    · exact ⟨_, rfl, by simp, fun p cb _ => ⟨now, probe, rfl⟩⟩

/-- Only `addTimer` adds a timer, at an address that has had none. -/
theorem added_next {a : Step P κ} (hnext : s.next a = some s') {q : P} :
    s'.added q = s.added q ∨
      ∃ ms cb recurring now, a = .addTimer q ms cb recurring now ∧ s.added q = none ∧
        s'.added q = some cb ∧ s'.log = s.log ++ [(q, .added recurring)] := by
  cases a with
  | addTimer p ms cb recurring now =>
    obtain ⟨hp, rfl⟩ := next_addTimer hnext
    by_cases hqp : q = p
    · subst hqp
      exact Or.inr ⟨ms, cb, recurring, now, rfl, hp, Function.update_self _ _ _, rfl⟩
    · exact Or.inl (Function.update_of_ne hqp _ _)
  | cancel p =>
    obtain ⟨-, ⟨f, -, rfl⟩ | ⟨tm, -, rfl⟩ | ⟨tm, -, rfl⟩⟩ := next_cancel hnext
    all_goals exact Or.inl rfl
  | refresh p now =>
    obtain ⟨-, rfl⟩ := next_refresh hnext
    exact Or.inl rfl
  | reset p ms from_now now seen =>
    obtain ⟨-, rfl⟩ := next_reset hnext
    exact Or.inl rfl
  | getNextTimer now =>
    obtain rfl := next_getNextTimer hnext
    exact Or.inl rfl
  | listTest now =>
    rcases next_listTest hnext with rfl | rfl
    all_goals exact Or.inl rfl
  | listTake now probe =>
    obtain ⟨-, -, ⟨f, -, rfl⟩ | ⟨out, tm, -, rfl⟩⟩ := next_listTake hnext
    all_goals exact Or.inl rfl

theorem addTimer_next {p : P} {ms : ℕ} {cb : κ} {recurring : Bool} {now : ℕ}
    (hnext : s.next (.addTimer p ms cb recurring now) = some s') :
    s.added p = none ∧ s'.added p = some cb ∧ s'.log = s.log ++ [(p, .added recurring)] := by
  obtain ⟨hp, rfl⟩ := next_addTimer hnext
  exact ⟨hp, Function.update_self _ _ _, rfl⟩

/-- Only timers that have been added appear in the log. -/
theorem Inv.added_of_mem_log (h : s.Inv) {p : P} {e : TimerEvent κ} (he : (p, e) ∈ s.log) :
    (s.added p).isSome := by
  obtain ⟨l, hrun, hat⟩ := h.lives p
  cases l with
  | unborn =>
    have hnil : history p s.log = [] :=
      Life.tells_of_run (l := .unborn) (h := []) rfl hrun
    have hmem := mem_history.mpr he
    rw [hnil] at hmem
    cases hmem
  | armed recurring | fired | cancelled recurring => exact hat.1

/-- `addTimer` alone puts a timer into the set. -/
theorem Inv.mem_next (h : s.Inv) {a : Step P κ} (hnext : s.next a = some s') {p : P}
    (hp : p ∈ s'.tm.timer) :
    p ∈ s.tm.timer ∨ ∃ ms cb recurring now, a = .addTimer p ms cb recurring now := by
  obtain ⟨hadded, -, hrun'⟩ := (h.next hnext).armed_of_mem hp
  obtain ⟨l, hrun, hat⟩ := h.lives p
  have hfinal (hl : l = .fired ∨ ∃ recurring, l = .cancelled recurring) : False := by
    obtain ⟨delta, hlog, -⟩ := log_next hnext
    rw [hlog, history_append, Transition.run_append, hrun, Option.bind_some] at hrun'
    rw [Life.eq_nil_of_final hl hrun'] at hrun'
    rcases hl with rfl | ⟨recurring, rfl⟩
    all_goals cases hrun'
  cases l with
  | unborn =>
    rcases added_next hnext (q := p) with hsame | ⟨ms, cb, recurring, now, ha, -⟩
    · rw [hsame, hat.1] at hadded
      cases hadded
    · exact Or.inr ⟨ms, cb, recurring, now, ha⟩
  | armed recurring => exact Or.inl hat.2.1
  | fired => exact (hfinal (Or.inl rfl)).elim
  | cancelled recurring => exact (hfinal (Or.inr ⟨recurring, rfl⟩)).elim

/-- A timer is not in the set after its `cancel`, whatever it returns. -/
theorem Inv.not_mem_cancel (h : s.Inv) {p : P} (hnext : s.next (.cancel p) = some s') :
    p ∉ s'.tm.timer := by
  rcases h.cancel_next hnext with ⟨-, rfl⟩ | ⟨hp, rfl⟩
  · exact h.ordered.nodup.not_mem_erase
  · exact hp

/-! ### What the owner of a timer may rely on -/

/-- What an event in the log of one timer says about the whole log. -/
theorem history_split {p : P} {e : TimerEvent κ} {log : List (P × TimerEvent κ)}
    {pre post : List (P × TimerEvent κ)} (hlog : log = pre ++ (p, e) :: post) :
    history p log = history p pre ++ e :: history p post := by
  rw [hlog, history_append, ← List.singleton_append, history_append, history_singleton, if_pos rfl]
  rfl

theorem Inv.tells (h : s.Inv) (p : P) : ∃ l, l.Tells (history p s.log) ∧ s.IsAt p l := by
  obtain ⟨l, hrun, hat⟩ := h.lives p
  exact ⟨l, Life.tells_of_run (l := .unborn) (h := []) rfl hrun, hat⟩

/-- Nothing is handed out after a cancellation. -/
theorem Inv.not_handed_of_cancelled (h : s.Inv) {p : P} {pre post : List (P × TimerEvent κ)}
    (hlog : s.log = pre ++ (p, .cancelled) :: post) (cb : Option κ) :
    (p, .handed cb) ∉ post := by
  obtain ⟨l, hrun, -⟩ := h.lives p
  rw [history_split hlog] at hrun
  intro hpost
  have hmem := mem_history.mpr hpost
  rw [Life.nothing_after_cancelled hrun] at hmem
  cases hmem

theorem Inv.countP_cancelled_le_one (h : s.Inv) (p : P) :
    (history p s.log).countP (·.isCancelled) ≤ 1 := by
  obtain ⟨l, hrun, -⟩ := h.lives p
  refine countP_le_one fun pre e post heq he => ?_
  cases e <;> cases he
  rw [heq] at hrun
  exact Life.nothing_after_cancelled hrun

theorem Inv.countP_handed_le_one (h : s.Inv) {p : P} (hp : (p, .added false) ∈ s.log) :
    (history p s.log).countP (·.isHanded) ≤ 1 := by
  obtain ⟨l, hrun, -⟩ := h.lives p
  have htells : l.Tells ([] ++ history p s.log) := Life.tells_of_run (l := .unborn) rfl hrun
  rw [List.nil_append] at htells
  have honce : ∀ r, TimerEvent.added r ∈ history p s.log → r = false := by
    intro r hr
    have hfalse := mem_history.mpr hp
    cases l with
    | unborn =>
      rw [(htells : history p s.log = [])] at hr
      cases hr
    | armed recurring | fired | cancelled recurring =>
      rw [htells.1.2 r hr, htells.1.2 false hfalse]
  refine countP_le_one fun pre e post heq he => ?_
  cases e <;> cases he
  rw [heq] at hrun
  exact Life.nothing_after_handed hrun fun r hr =>
    honce r (by rw [heq]; exact List.mem_append_left _ hr)

/-- A timer that is not recurring is not handed out again. -/
theorem Inv.not_handed_again (h : s.Inv) {p : P} (hp : (p, .added false) ∈ s.log)
    {log log' : List (P × TimerEvent κ)} (hlog : s.log = log ++ log') {cb cb' : Option κ}
    (hcb : (p, .handed cb) ∈ log) : (p, .handed cb') ∉ log' := by
  intro hcb'
  have hle := h.countP_handed_le_one hp
  rw [hlog, history_append, List.countP_append] at hle
  have hpos : 0 < (history p log).countP (·.isHanded) :=
    List.countP_pos_iff.mpr ⟨_, mem_history.mpr hcb, rfl⟩
  have hpos' : 0 < (history p log').countP (·.isHanded) :=
    List.countP_pos_iff.mpr ⟨_, mem_history.mpr hcb', rfl⟩
  omega

/-- Armed, handed out for good, cancelled: exactly one of the three. -/
def ExactlyOne (a b c : Prop) : Prop := (a ∧ ¬b ∧ ¬c) ∨ (¬a ∧ b ∧ ¬c) ∨ (¬a ∧ ¬b ∧ c)

theorem Inv.exactlyOne (h : s.Inv) {p : P} (hadded : (s.added p).isSome) :
    ExactlyOne (p ∈ s.tm.timer)
      ((p, .added false) ∈ s.log ∧ ∃ cb, (p, .handed cb) ∈ s.log)
      ((p, .cancelled) ∈ s.log) := by
  obtain ⟨l, htells, hat⟩ := h.tells p
  simp only [← mem_history (p := p)]
  cases l with
  | unborn =>
    rw [hat.1] at hadded
    cases hadded
  | armed recurring =>
    obtain ⟨hborn, hnot, honce⟩ := htells
    refine Or.inl ⟨hat.2.1, ?_, hnot⟩
    rintro ⟨hfalse, cb, hcb⟩
    exact honce (hborn.2 false hfalse).symm cb hcb
  | fired =>
    obtain ⟨hborn, hnot, hhanded⟩ := htells
    exact Or.inr (Or.inl ⟨hat.2.1, ⟨hborn.1, hhanded⟩, hnot⟩)
  | cancelled recurring =>
    obtain ⟨hborn, hcancelled, honce⟩ := htells
    refine Or.inr (Or.inr ⟨hat.2.1, ?_, hcancelled⟩)
    rintro ⟨hfalse, cb, hcb⟩
    exact honce (hborn.2 false hfalse).symm cb hcb

/-- **Delivery is exactly-once and cancellation is final**, in every state that any interleaving
of the operations reaches.

A timer that is not recurring is handed out at most once; what is handed out is the callback the
timer was added with, and never after a cancellation.  `cancel` never erases the end iterator,
and it returns true at most once, for a timer of the set.  `refresh` and `reset` give up on a
timer that has been fired or cancelled and change nothing. -/
theorem delivery_of_run {mem : P → Timer κ} {now : ℕ} {as : List (Step P κ)}
    (hrun : Transition.run next (init mem now) as = some s) :
    (∀ p, (p, .added false) ∈ s.log → (history p s.log).countP (·.isHanded) ≤ 1) ∧
    (∀ p cb, (p, .handed cb) ∈ s.log → cb.isSome ∧ cb = s.added p) ∧
    (∀ p pre post, s.log = pre ++ (p, .cancelled) :: post → ∀ cb, (p, .handed cb) ∉ post) ∧
    (∀ p, (history p s.log).countP (·.isCancelled) ≤ 1) ∧
    s.crashed ≠ some .eraseEnd ∧
    (∀ p, (s.added p).isSome →
      ∃ tm, s.tm.cancel p = .ok (decide (p ∈ s.tm.timer), tm)) ∧
    (∀ p, (s.added p).isSome → p ∉ s.tm.timer →
      (∀ now, s.tm.refresh p now = (false, s.tm)) ∧
      ∀ ms from_now now seen, s.tm.reset p ms from_now now seen = (false, false, s.tm)) ∧
    (∀ p, (s.added p).isSome →
      ExactlyOne (p ∈ s.tm.timer)
        ((p, .added false) ∈ s.log ∧ ∃ cb, (p, .handed cb) ∈ s.log)
        ((p, .cancelled) ∈ s.log)) := by
  have h := inv_of_run hrun
  refine ⟨fun p hp => h.countP_handed_le_one hp, fun p cb hp => (h.handed p cb hp).symm,
    fun p pre post hlog cb => h.not_handed_of_cancelled hlog cb, h.countP_cancelled_le_one,
    h.crashed, fun p hp => ?_, fun p hp hmem => ?_, fun p hp => h.exactlyOne hp⟩
  · rw [h.cancel_eq hp]
    split_ifs with hmem
    · exact ⟨_, by rw [decide_eq_true hmem]⟩
    · exact ⟨_, by rw [decide_eq_false hmem]⟩
  · have hcb := h.cb_of_not_mem hp hmem
    exact ⟨refresh_of_cb_none hcb, reset_of_cb_none hcb⟩

/-- A timer that fires next to a recurring one that fires and is cancelled. -/
theorem delivery_of_run_two_timers :
    ∃ s : System ℕ ℕ,
      Transition.run next (init (fun _ => ⟨false, 0, 0, none⟩) 0)
        [.addTimer 1 10 7 false 0, .addTimer 2 5 8 true 0, .listTest 20, .listTake 20 9,
          .cancel 2, .cancel 1] = some s ∧
      s.log = [(1, .added false), (2, .added true), (2, .handed (some 8)), (1, .handed (some 7)),
        (2, .cancelled)] ∧
      (history 1 s.log).countP (·.isHanded) ≤ 1 :=
  ⟨_, rfl, rfl,
    (@delivery_of_run ℕ ℕ _ _ (fun _ => ⟨false, 0, 0, none⟩) 0
      [.addTimer 1 10 7 false 0, .addTimer 2 5 8 true 0, .listTest 20, .listTake 20 9,
        .cancel 2, .cancel 1] rfl).1 1 (by decide)⟩

end System

end TimerManager

end Muhui
