/-
  Table-driven scanners with actions.

  A generated scanner is a deterministic automaton over bytes whose transitions carry lists of
  actions.  What an action does to the user's data is not part of the table: it is the function
  `exec`, which is told the position of the byte.  `scan` runs the table over a piece of input and
  returns how many bytes it consumed; it ends early in the error state, on a transition into the
  error state (that byte is not consumed), and behind a byte one of whose actions stops the scanner.
-/
import Mathlib.Data.List.Basic

namespace Muhui.Scanner

/-- The table of a generated scanner. -/
structure Automaton (α : Type) where
  State : Type
  [decEq : DecidableEq State]
  start : State
  error : State
  isFinal : State → Bool
  next : State → UInt8 → State × List α

attribute [instance] Automaton.decEq

variable {α σ : Type} (A : Automaton α) (exec : ℕ → α → σ → Option σ) (stops : α → Bool)

/-- The actions of one transition, at position `p`. -/
def runActions (p : ℕ) : List α → σ → Option σ
  | [], s => some s
  | a :: as, s => (exec p a s).bind (runActions p as)

/-- Runs the table over `bs`, the first byte of which stands at position `p`.  The result is the
position behind the last consumed byte, the state and the data; `none` when an action throws. -/
def scan : List UInt8 → ℕ → A.State → σ → Option (ℕ × A.State × σ)
  | [], p, q, s => some (p, q, s)
  | b :: bs, p, q, s =>
    if q = A.error then some (p, q, s)
    else
      (runActions exec p (A.next q b).2 s).bind fun s' =>
        if (A.next q b).1 = A.error then some (p, A.error, s')
        else if (A.next q b).2.any stops then some (p + 1, (A.next q b).1, s')
        else scan bs (p + 1) (A.next q b).1 s'

/-- The state behind `bs`. -/
def Automaton.after (q : A.State) (bs : List UInt8) : A.State :=
  bs.foldl (fun q b => (A.next q b).1) q

@[simp] theorem Automaton.after_nil (q : A.State) : A.after q [] = q := rfl

@[simp] theorem Automaton.after_cons (q : A.State) (b : UInt8) (bs : List UInt8) :
    A.after q (b :: bs) = A.after (A.next q b).1 bs := rfl

theorem Automaton.after_append (q : A.State) (as bs : List UInt8) :
    A.after q (as ++ bs) = A.after (A.after q as) bs :=
  List.foldl_append ..

variable {A exec stops}

@[simp] theorem runActions_nil {p : ℕ} {s : σ} : runActions exec p [] s = some s := rfl

theorem runActions_singleton {p : ℕ} {a : α} {s : σ} : runActions exec p [a] s = exec p a s := by
  rw [runActions]
  cases exec p a s <;> rfl

theorem runActions_cons_eq_some {p : ℕ} {a : α} {as : List α} {s s'' : σ} :
    runActions exec p (a :: as) s = some s'' ↔
      ∃ s', exec p a s = some s' ∧ runActions exec p as s' = some s'' := by
  rw [runActions, Option.bind_eq_some_iff]

/-- One byte that neither fails nor stops the scanner. -/
theorem scan_cons {b : UInt8} {p : ℕ} {q : A.State} {s s' : σ} (hq : q ≠ A.error)
    (hrun : runActions exec p (A.next q b).2 s = some s') (hnext : (A.next q b).1 ≠ A.error)
    (hstop : (A.next q b).2.any stops = false) (bs : List UInt8) :
    scan A exec stops (b :: bs) p q s = scan A exec stops bs (p + 1) (A.next q b).1 s' := by
  rw [scan, if_neg hq, hrun, Option.bind_some, if_neg hnext, hstop]
  rfl

/-- One byte that stops the scanner. -/
theorem scan_stop {b : UInt8} {p : ℕ} {q : A.State} {s s' : σ} (hq : q ≠ A.error)
    (hrun : runActions exec p (A.next q b).2 s = some s') (hnext : (A.next q b).1 ≠ A.error)
    (hstop : (A.next q b).2.any stops = true) (bs : List UInt8) :
    scan A exec stops (b :: bs) p q s = some (p + 1, (A.next q b).1, s') := by
  rw [scan, if_neg hq, hrun, Option.bind_some, if_neg hnext, hstop]
  rfl

/-- What a scan that consumes all of its (non-empty) input has done with the first byte. -/
theorem scan_all_cons {b : UInt8} {bs : List UInt8} {p : ℕ} {q q'' : A.State} {s s'' : σ}
    (h : scan A exec stops (b :: bs) p q s = some (p + 1 + bs.length, q'', s'')) :
    q ≠ A.error ∧ (A.next q b).1 ≠ A.error ∧
      ∃ s', runActions exec p (A.next q b).2 s = some s' ∧
        (((A.next q b).2.any stops = true ∧ bs = [] ∧ q'' = (A.next q b).1 ∧ s'' = s') ∨
          ((A.next q b).2.any stops = false ∧
            scan A exec stops bs (p + 1) (A.next q b).1 s' =
              some (p + 1 + bs.length, q'', s''))) := by
  have hq : q ≠ A.error := by
    intro hq
    rw [scan, if_pos hq] at h
    simp only [Option.some.injEq, Prod.mk.injEq] at h
    omega
  rw [scan, if_neg hq, Option.bind_eq_some_iff] at h
  obtain ⟨s', hrun, h⟩ := h
  have hnext : (A.next q b).1 ≠ A.error := by
    intro hnext
    rw [if_pos hnext] at h
    simp only [Option.some.injEq, Prod.mk.injEq] at h
    omega
  rw [if_neg hnext] at h
  refine ⟨hq, hnext, s', hrun, ?_⟩
  by_cases hstop : (A.next q b).2.any stops = true
  · rw [if_pos hstop] at h
    simp only [Option.some.injEq, Prod.mk.injEq] at h
    obtain ⟨hp, rfl, rfl⟩ := h
    -- the scanner stopped behind the byte, so nothing is left
    have hbs : bs.length = 0 := by omega
    exact .inl ⟨hstop, List.length_eq_zero_iff.mp hbs, rfl, rfl⟩
  · rw [if_neg hstop] at h
    exact .inr ⟨by simpa using hstop, h⟩

theorem runActions_induction {P : σ → Prop} {p : ℕ}
    (hP : ∀ a s s', exec p a s = some s' → P s → P s') {as : List α} {s s' : σ}
    (h : runActions exec p as s = some s') (hs : P s) : P s' := by
  induction as generalizing s with
  | nil =>
    obtain rfl : s = s' := by simpa using h
    exact hs
  | cons a as ih =>
    obtain ⟨t, ht, h⟩ := runActions_cons_eq_some.mp h
    exact ih h (hP a s t ht hs)

/-- What every action and every step to the next byte keeps, a scan keeps. -/
theorem scan_induction_at {P : ℕ → σ → Prop} {n : ℕ}
    (hP : ∀ p a s s', p < n → exec p a s = some s' → P p s → P p s')
    (hstep : ∀ p s, P p s → P (p + 1) s) {bs : List UInt8} {p p' : ℕ} {q q' : A.State} {s s' : σ}
    (hn : p + bs.length ≤ n) (h : scan A exec stops bs p q s = some (p', q', s')) (hs : P p s) :
    P p' s' := by
  induction bs generalizing p q s with
  | nil =>
    simp only [scan, Option.some.injEq, Prod.mk.injEq] at h
    obtain ⟨rfl, -, rfl⟩ := h
    exact hs
  | cons b bs ih =>
    rw [List.length_cons] at hn
    rw [scan] at h
    by_cases hq : q = A.error
    · rw [if_pos hq] at h
      simp only [Option.some.injEq, Prod.mk.injEq] at h
      obtain ⟨rfl, -, rfl⟩ := h
      exact hs
    · rw [if_neg hq] at h
      obtain ⟨t, ht, h⟩ := Option.bind_eq_some_iff.mp h
      have hPt : P p t := runActions_induction (fun a s s' => hP p a s s' (by omega)) ht hs
      by_cases hnext : (A.next q b).1 = A.error
      · rw [if_pos hnext] at h
        simp only [Option.some.injEq, Prod.mk.injEq] at h
        obtain ⟨rfl, -, rfl⟩ := h
        exact hPt
      · rw [if_neg hnext] at h
        by_cases hstop : (A.next q b).2.any stops = true
        · rw [if_pos hstop] at h
          simp only [Option.some.injEq, Prod.mk.injEq] at h
          obtain ⟨rfl, -, rfl⟩ := h
          exact hstep p t hPt
        · rw [if_neg hstop] at h
          exact ih (by omega) h (hstep p t hPt)

/-- What every action keeps, a scan keeps. -/
theorem scan_induction {P : σ → Prop} (hP : ∀ p a s s', exec p a s = some s' → P s → P s')
    {bs : List UInt8} {p p' : ℕ} {q q' : A.State} {s s' : σ}
    (h : scan A exec stops bs p q s = some (p', q', s')) (hs : P s) : P s' :=
  scan_induction_at (P := fun _ => P) (fun p a s s' _ => hP p a s s') (fun _ _ hs => hs)
    (Nat.le_refl _) h hs

theorem runActions_induction_back {P : σ → Prop}
    (hP : ∀ p a s s', exec p a s = some s' → P s' → P s) {p : ℕ} {as : List α} {s s' : σ}
    (h : runActions exec p as s = some s') (hs' : P s') : P s := by
  by_contra hs
  exact runActions_induction (P := fun s => ¬P s)
    (fun a s s' h hs hs' => hs (hP p a s s' h hs')) h hs hs'

/-- What every action keeps backwards, a scan keeps backwards. -/
theorem scan_induction_back {P : σ → Prop} (hP : ∀ p a s s', exec p a s = some s' → P s' → P s)
    {bs : List UInt8} {p p' : ℕ} {q q' : A.State} {s s' : σ}
    (h : scan A exec stops bs p q s = some (p', q', s')) (hs' : P s') : P s := by
  by_contra hs
  exact scan_induction (P := fun s => ¬P s) (fun p a s s' h hs hs' => hs (hP p a s s' h hs')) h hs
    hs'

/-- A scan does not leave its input, and it ends early in the error state or at a stop only. -/
theorem scan_end {bs : List UInt8} {p p' : ℕ} {q q' : A.State} {s s' : σ}
    (h : scan A exec stops bs p q s = some (p', q', s')) :
    p' ≤ p + bs.length ∧ (p' = p + bs.length ∨ q' = A.error ∨
      ∃ q₀ b, (A.next q₀ b).2.any stops = true ∧ q' = (A.next q₀ b).1) := by
  induction bs generalizing p q s with
  | nil =>
    simp only [scan, Option.some.injEq, Prod.mk.injEq] at h
    obtain ⟨rfl, -, -⟩ := h
    exact ⟨Nat.le_refl _, .inl rfl⟩
  | cons b bs ih =>
    rw [scan] at h
    rw [List.length_cons]
    by_cases hq : q = A.error
    · rw [if_pos hq] at h
      simp only [Option.some.injEq, Prod.mk.injEq] at h
      obtain ⟨rfl, rfl, -⟩ := h
      exact ⟨Nat.le_add_right _ _, .inr (.inl hq)⟩
    · rw [if_neg hq] at h
      obtain ⟨t, -, h⟩ := Option.bind_eq_some_iff.mp h
      split_ifs at h with hnext hstop
      · simp only [Option.some.injEq, Prod.mk.injEq] at h
        obtain ⟨rfl, rfl, -⟩ := h
        exact ⟨Nat.le_add_right _ _, .inr (.inl rfl)⟩
      · simp only [Option.some.injEq, Prod.mk.injEq] at h
        obtain ⟨rfl, rfl, -⟩ := h
        exact ⟨by omega, .inr (.inr ⟨q, b, hstop, rfl⟩)⟩
      · obtain ⟨hle, hcases⟩ := ih h
        rw [Nat.add_right_comm, Nat.add_assoc] at hle hcases
        exact ⟨hle, hcases⟩

/-- A scan that consumes all of its input ends in the state behind it. -/
theorem after_of_scan {bs : List UInt8} {p : ℕ} {q q' : A.State} {s s' : σ}
    (h : scan A exec stops bs p q s = some (p + bs.length, q', s')) : q' = A.after q bs := by
  induction bs generalizing p q s with
  | nil =>
    simp only [scan, Option.some.injEq, Prod.mk.injEq] at h
    exact h.2.1.symm
  | cons b bs ih =>
    rw [List.length_cons, show p + (bs.length + 1) = p + 1 + bs.length by omega] at h
    obtain ⟨-, -, s₁, -, ⟨-, rfl, rfl, -⟩ | ⟨-, h⟩⟩ := scan_all_cons h
    · rfl
    · exact ih h

/-- A property of the state, the position and the data that every byte of the buffer keeps, a scan
of a piece of the buffer keeps. -/
theorem scan_keeps {I : A.State → ℕ → σ → Prop} {buffer : List UInt8}
    (hstep : ∀ q p b s s', buffer[p]? = some b → I q p s →
      runActions exec p (A.next q b).2 s = some s' → I (A.next q b).1 (p + 1) s')
    (herror : ∀ p p' s, I A.error p s → I A.error p' s) {bs : List UInt8} {p p' : ℕ}
    {q q' : A.State} {s s' : σ} (hbs : bs <+: buffer.drop p)
    (h : scan A exec stops bs p q s = some (p', q', s')) (hs : I q p s) : I q' p' s' := by
  induction bs generalizing p q s with
  | nil =>
    simp only [scan, Option.some.injEq, Prod.mk.injEq] at h
    obtain ⟨rfl, rfl, rfl⟩ := h
    exact hs
  | cons b bs ih =>
    obtain ⟨rest, hrest⟩ := hbs
    have hb : buffer[p]? = some b := by
      rw [← Nat.add_zero p, ← List.getElem?_drop, ← hrest]
      rfl
    have hbs' : bs <+: buffer.drop (p + 1) := by
      rw [← List.drop_drop, ← hrest]
      exact ⟨rest, rfl⟩
    rw [scan] at h
    by_cases hq : q = A.error
    · rw [if_pos hq] at h
      simp only [Option.some.injEq, Prod.mk.injEq] at h
      obtain ⟨rfl, rfl, rfl⟩ := h
      exact hs
    · rw [if_neg hq] at h
      obtain ⟨t, ht, h⟩ := Option.bind_eq_some_iff.mp h
      have hnext := hstep q p b s t hb hs ht
      split_ifs at h with hdead hstop
      · simp only [Option.some.injEq, Prod.mk.injEq] at h
        obtain ⟨rfl, rfl, rfl⟩ := h
        rw [hdead] at hnext
        exact herror _ _ _ hnext
      · simp only [Option.some.injEq, Prod.mk.injEq] at h
        obtain ⟨rfl, rfl, rfl⟩ := h
        exact hnext
      · exact ih hbs' h hnext

end Muhui.Scanner
