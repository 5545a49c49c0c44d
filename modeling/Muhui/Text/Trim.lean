/-
  `Trim`, `TrimLeft` and `TrimRight` (`util.cc`).

  `find_last_not_of` gives the position of the last byte to keep.  `Trim` counts it in, `TrimRight`
  does not and drops that byte, so the two agree only when there is none (`trimLaws_iff`).
-/
import Mathlib.Algebra.Ring.Nat
import Mathlib.Data.List.Basic
import Mathlib.Data.Nat.Notation

namespace Muhui.StringUtil

/-- The position of the first byte that is not in the set; `none` is `npos`. -/
def findFirstNotOf (str delimit : List UInt8) : Option ℕ := str.findIdx? (· ∉ delimit)

/-- The position of the last one. -/
def findLastNotOf (str delimit : List UInt8) : Option ℕ :=
  (str.reverse.findIdx? (· ∉ delimit)).map fun n => str.length - 1 - n

def substr (str : List UInt8) (pos n : ℕ) : List UInt8 := (str.drop pos).take n

/-- `std::string::npos` -/
def npos : ℕ := 2 ^ 64 - 1

/-! ### The code -/

def trim (str delimit : List UInt8) : List UInt8 :=
  match findFirstNotOf str delimit with
  | none => []
  | some first => substr str first ((findLastNotOf str delimit).getD npos - first + 1)

def trimLeft (str delimit : List UInt8) : List UInt8 :=
  match findFirstNotOf str delimit with
  | none => []
  | some first => str.drop first

def trimRight (str delimit : List UInt8) : List UInt8 :=
  match findLastNotOf str delimit with
  | none => []
  | some last => substr str 0 last

/-- The laws of trimming. -/
structure TrimLaws (s d : List UInt8) : Prop where
  left_right : trim s d = trimLeft (trimRight s d) d
  right_left : trim s d = trimRight (trimLeft s d) d
  left_idem : trimLeft (trimLeft s d) d = trimLeft s d
  right_idem : trimRight (trimRight s d) d = trimRight s d
  cut : ∃ x y, (∀ c ∈ x, c ∈ d) ∧ (∀ c ∈ y, c ∈ d) ∧ s = x ++ trim s d ++ y

/-! ### Where the searches stop -/

variable {s d x y t : List UInt8} {c : UInt8}

theorem findFirst_eq_none (h : ∀ c ∈ s, c ∈ d) : findFirstNotOf s d = none := by
  unfold findFirstNotOf
  simp only [List.findIdx?_eq_none_iff, decide_eq_false_iff_not, not_not]
  exact h

theorem findLast_eq_none (h : ∀ c ∈ s, c ∈ d) : findLastNotOf s d = none := by
  unfold findLastNotOf
  have hreverse : ∀ c ∈ s.reverse, c ∈ d := fun c hc => h c (List.mem_reverse.mp hc)
  rw [show s.reverse.findIdx? (· ∉ d) = none from findFirst_eq_none hreverse]
  rfl

theorem find_first_append (hx : ∀ c ∈ x, c ∈ d) (hc : c ∉ d) :
    findFirstNotOf (x ++ c :: t) d = some x.length := by
  unfold findFirstNotOf
  induction x with
  | nil => simp [List.findIdx?_cons, hc]
  | cons a x ih =>
    rw [List.forall_mem_cons] at hx
    simp only [List.cons_append, List.findIdx?_cons, hx.1, not_true_eq_false, decide_false,
      Bool.false_eq_true, if_false, ih hx.2, Option.map_some, List.length_cons]

theorem find_last_append (hy : ∀ c ∈ y, c ∈ d) (hc : c ∉ d) :
    findLastNotOf (t ++ c :: y) d = some t.length := by
  have hreverse : (t ++ c :: y).reverse = y.reverse ++ c :: t.reverse := by simp
  have hy' : ∀ c ∈ y.reverse, c ∈ d := fun c hc => hy c (List.mem_reverse.mp hc)
  have hfirst := find_first_append (t := t.reverse) hy' hc
  unfold findFirstNotOf at hfirst
  unfold findLastNotOf
  rw [hreverse, hfirst, Option.map_some, List.length_reverse, List.length_append, List.length_cons]
  congr 1
  omega

/-- The first byte that is not in the set. -/
theorem exists_first (h : ¬∀ c ∈ s, c ∈ d) :
    ∃ x c t, s = x ++ c :: t ∧ (∀ a ∈ x, a ∈ d) ∧ c ∉ d := by
  induction s with
  | nil => exact absurd (fun c hc => nomatch hc) h
  | cons a s ih =>
    by_cases ha : a ∈ d
    · obtain ⟨x, c, t, rfl, hx, hc⟩ := ih fun hs => h (List.forall_mem_cons.mpr ⟨ha, hs⟩)
      exact ⟨a :: x, c, t, rfl, List.forall_mem_cons.mpr ⟨ha, hx⟩, hc⟩
    · exact ⟨[], a, s, rfl, nofun, ha⟩

/-- The last one. -/
theorem exists_last (h : ¬∀ c ∈ s, c ∈ d) :
    ∃ t c y, s = t ++ c :: y ∧ (∀ a ∈ y, a ∈ d) ∧ c ∉ d := by
  have hreverse : ¬∀ c ∈ s.reverse, c ∈ d := by
    intro hall
    exact h fun c hc => hall c (List.mem_reverse.mpr hc)
  obtain ⟨x, c, t, hs, hx, hc⟩ := exists_first hreverse
  refine ⟨t.reverse, c, x.reverse, ?_, fun a ha => hx a (List.mem_reverse.mp ha), hc⟩
  rw [← List.reverse_reverse s, hs]
  simp

/-! ### What is left of a text -/

theorem trimLeft_append (hx : ∀ c ∈ x, c ∈ d) (hc : c ∉ d) :
    trimLeft (x ++ c :: t) d = c :: t := by
  unfold trimLeft
  simp only [find_first_append hx hc, List.drop_left]

theorem trimRight_append (hy : ∀ c ∈ y, c ∈ d) (hc : c ∉ d) :
    trimRight (t ++ c :: y) d = t := by
  unfold trimRight substr
  simp only [find_last_append hy hc, List.drop_zero, List.take_left]

/-- `Trim` keeps what begins with the first byte that is not in the set and ends with the last. -/
theorem trim_append {m : List UInt8} {e : UInt8} (hx : ∀ c ∈ x, c ∈ d) (hc : c ∉ d)
    (hy : ∀ c ∈ y, c ∈ d) (he : e ∉ d) (hm : c :: t = m ++ e :: y) :
    trim (x ++ c :: t) d = m ++ [e] := by
  unfold trim substr
  have hlast : findLastNotOf (x ++ c :: t) d = some (x ++ m).length := by
    rw [hm, ← List.append_assoc]
    exact find_last_append hy he
  simp only [find_first_append hx hc, hlast, Option.getD_some, List.drop_left,
    List.length_append, Nat.add_sub_cancel_left]
  rw [hm, List.append_cons, List.take_left' (by simp)]

theorem trim_of_delimiters (h : ∀ c ∈ s, c ∈ d) :
    trim s d = [] ∧ trimLeft s d = [] ∧ trimRight s d = [] := by
  unfold trim trimLeft trimRight
  simp only [findFirst_eq_none h, findLast_eq_none h, and_self]

/-! ### When the laws hold -/

/-- The laws of trimming hold of delimiters only. -/
theorem trimLaws_iff (s d : List UInt8) : TrimLaws s d ↔ ∀ c ∈ s, c ∈ d := by
  constructor
  · intro hlaws
    by_contra hsome
    obtain ⟨x, c, t, rfl, hx, hc⟩ := exists_first hsome
    have hsome' : ¬∀ a ∈ c :: t, a ∈ d := fun h => hc (h c List.mem_cons_self)
    obtain ⟨m, e, y, hm, hy, he⟩ := exists_last hsome'
    have hright := hlaws.right_left
    -- the two differ by the last byte
    rw [trim_append hx hc hy he hm, trimLeft_append hx hc, hm, trimRight_append hy he] at hright
    simp at hright
  · intro h
    obtain ⟨htrim, hleft, hright⟩ := trim_of_delimiters h
    have hnil := trim_of_delimiters (s := []) (d := d) nofun
    constructor
    · rw [htrim, hright, hnil.2.1]
    · rw [htrim, hleft, hnil.2.2]
    · rw [hleft, hnil.2.1]
    · rw [hright, hnil.2.2]
    · exact ⟨s, [], h, nofun, by simp [htrim]⟩

/-- `TrimRight` takes the last letter from `ab`. -/
theorem not_trimLaws_of_letters :
    trimRight [97, 98] [32] = [97] ∧ trim [97, 98] [32] = [97, 98] ∧ ¬TrimLaws [97, 98] [32] := by
  refine ⟨by decide, by decide, ?_⟩
  intro h
  exact absurd h.right_left (by decide)

end Muhui.StringUtil
