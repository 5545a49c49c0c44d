/-
  Scanners given by rows of byte ranges.

  A generator writes a scanner as code, a switch over the states with comparisons of the byte, and
  what the code does is a row for each state: which ranges of bytes lead where, with which actions.
  State 0 is the error state, and a byte that no entry of the row covers leads there.

  That a table follows a fragment, and what holds of each of its moves, can be computed from the
  rows (`follows_of_check`, `next_cases`).
-/
import Muhui.Scanner.Fragment

namespace Muhui.Scanner

/-- The bytes in some of the ranges lead to `target`. -/
structure Entry (α : Type) where
  ranges : List (ℕ × ℕ)
  target : ℕ
  acts : List α
  deriving DecidableEq

variable {α : Type}

/-- The byte is in one of the ranges. -/
def inRanges (ranges : List (ℕ × ℕ)) (b : UInt8) : Bool :=
  ranges.any fun r => Nat.ble r.1 b.toNat && Nat.ble b.toNat r.2

/-- Each of the ranges is part of one of the others. -/
def within (ranges others : List (ℕ × ℕ)) : Bool :=
  ranges.all fun r => others.any fun o => Nat.ble o.1 r.1 && Nat.ble r.2 o.2

theorem inRanges_of_within {ranges others : List (ℕ × ℕ)} {b : UInt8}
    (h : within ranges others = true) (hb : inRanges ranges b = true) :
    inRanges others b = true := by
  simp only [inRanges, List.any_eq_true, Bool.and_eq_true, Nat.ble_eq] at hb ⊢
  obtain ⟨r, hr, hlow, hhigh⟩ := hb
  have hpart := List.all_eq_true.mp h r hr
  simp only [List.any_eq_true, Bool.and_eq_true, Nat.ble_eq] at hpart
  obtain ⟨o, ho, hlow', hhigh'⟩ := hpart
  exact ⟨o, ho, Nat.le_trans hlow' hlow, Nat.le_trans hhigh hhigh'⟩

def Entry.covers (e : Entry α) (b : UInt8) : Bool := inRanges e.ranges b

/-- What a row makes of a byte. -/
def rowStep (row : List (Entry α)) (b : UInt8) : ℕ × List α :=
  ((row.find? (·.covers b)).map fun e => (e.target, e.acts)).getD (0, [])

/-- The scanner with these rows. -/
@[reducible] def ofRows (rows : List (List (Entry α))) (start : ℕ) (isFinal : ℕ → Bool) :
    Automaton α where
  State := ℕ
  start := start
  error := 0
  isFinal := isFinal
  next q b := rowStep (rows.getD q []) b

theorem rowStep_cases (row : List (Entry α)) (b : UInt8) :
    rowStep row b = (0, []) ∨
      ∃ e ∈ row, e.covers b = true ∧ rowStep row b = (e.target, e.acts) := by
  unfold rowStep
  cases hfind : row.find? (·.covers b) with
  | none => exact .inl rfl
  | some e =>
    have hcovers : e.covers b = true := by simpa using List.find?_some hfind
    exact .inr ⟨e, List.mem_of_find?_eq_some hfind, hcovers, rfl⟩

variable {rows : List (List (Entry α))} {start : ℕ} {isFinal : ℕ → Bool}

/-- A move of the scanner is an entry of its row. -/
theorem next_cases (q : ℕ) (b : UInt8) :
    (ofRows rows start isFinal).next q b = (0, []) ∨
      ∃ row e, rows[q]? = some row ∧ e ∈ row ∧ e.covers b = true ∧
        (ofRows rows start isFinal).next q b = (e.target, e.acts) := by
  show rowStep (rows.getD q []) b = _ ∨ ∃ row e, _ ∧ _ ∧ _ ∧ rowStep (rows.getD q []) b = _
  rw [List.getD_eq_getElem?_getD]
  cases hrow : rows[q]? with
  | none => exact .inl rfl
  | some row =>
    refine (rowStep_cases row b).imp id fun ⟨e, he, hcovers, hstep⟩ => ?_
    exact ⟨row, e, rfl, he, hcovers, hstep⟩

/-- A property of all entries, each with the state of its row. -/
def rowsAll (P : ℕ → Entry α → Bool) (rows : List (List (Entry α))) : Bool :=
  rows.zipIdx.all fun r => r.1.all (P r.2)

theorem of_rowsAll {P : ℕ → Entry α → Bool} (h : rowsAll P rows = true) {q : ℕ}
    {row : List (Entry α)} {e : Entry α} (hrow : rows[q]? = some row) (he : e ∈ row) :
    P q e = true := by
  have hmem : (row, q) ∈ rows.zipIdx := List.mk_mem_zipIdx_iff_getElem?.mpr hrow
  exact List.all_eq_true.mp (List.all_eq_true.mp h _ hmem) e he

/-- What holds of all entries holds of all moves that are not errors. -/
theorem next_of_rowsAll {P : ℕ → Entry α → Bool} (h : rowsAll P rows = true) (q : ℕ) (b : UInt8) :
    (ofRows rows start isFinal).next q b = (0, []) ∨
      ∃ e, P q e = true ∧ e.covers b = true ∧
        (ofRows rows start isFinal).next q b = (e.target, e.acts) := by
  refine (next_cases q b).imp id fun ⟨row, e, hrow, he, hcovers, hnext⟩ => ?_
  exact ⟨e, of_rowsAll h hrow he, hcovers, hnext⟩

/-! ### Following a fragment -/

section Check

variable (F : Fragment α) (flag : α → Bool) (states : F.Place → List ℕ) (places : List F.Place)

/-- What the rows of the states of a place make of a byte. -/
def stepCheck [DecidableEq α] (rows : List (List (Entry α))) (f : F.Place) (b : UInt8) : Bool :=
  (F.step f b).all fun move => (states f).all fun q =>
    let r := rowStep (rows.getD q []) b
    (states move.1).contains r.1 && move.2.contains (r.2.filter fun a => !flag a)

/-- Every byte at every place. -/
def followsCheck [DecidableEq α] (rows : List (List (Entry α))) : Bool :=
  places.all fun f => (List.range 256).all fun n => stepCheck F flag states rows f (UInt8.ofNat n)

variable {F flag states places}

/-- **The check of a table.** Where each move of the fragment is found in the rows, the table
follows the fragment. -/
theorem follows_of_check [DecidableEq α] (hplaces : ∀ f q, q ∈ states f → f ∈ places)
    (hstart : start ∈ states F.start) (halive : ∀ f, 0 ∉ states f)
    (hfinal : ∀ q ∈ states F.final, isFinal q = true)
    (hcheck : followsCheck F flag states places rows = true) :
    Follows (ofRows rows start isFinal) F flag fun f q => q ∈ states f where
  start := hstart
  alive f q hq h0 := by
    obtain rfl : q = 0 := h0
    exact halive f hq
  final := hfinal
  step f q b f' opts hq hstep := by
    have hplace := List.all_eq_true.mp hcheck f (hplaces f q hq)
    have hbyte := List.all_eq_true.mp hplace b.toNat (List.mem_range.mpr b.toNat_lt)
    rw [UInt8.ofNat_toNat, stepCheck, hstep, Option.all_some, List.all_eq_true] at hbyte
    have hmove := hbyte q hq
    simp only [Bool.and_eq_true, List.contains_iff_mem] at hmove
    exact hmove

end Check

end Muhui.Scanner
