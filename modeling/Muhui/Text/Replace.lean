/-
  The three overloads of `replace` (`hash_util.cc`).

  Each edits the string that it searches and goes on behind the text that it has put in.  What is
  left to search gets shorter with each occurrence but for the empty string, which occurs where the
  search begins, so that the loop does not end (`replaces_iff`).
-/
import Muhui.Text.Search

namespace Muhui.StringUtil

open Search (first find first_nil substitute substitute_of_none substitute_of_some)

/-- The loop: `edit` is the body, and the search goes on `step` characters behind the occurrence.
The number bounds the passes; `none` is a loop that has not ended by then. -/
def replaceLoop (pattern : List UInt8) (edit : List UInt8 → ℕ → List UInt8) (step : ℕ) :
    ℕ → List UInt8 → Option ℕ → Option (List UInt8)
  | 0, _, _ => none
  | _ + 1, str, none => some str
  | fuel + 1, str, some index =>
    replaceLoop pattern edit step fuel (edit str index)
      (find pattern (edit str index) (index + step))

/-- `replace` of a character by a character -/
def replaceChar (str1 : List UInt8) (c replaceWith : UInt8) (fuel : ℕ) : Option (List UInt8) :=
  replaceLoop [c] (fun str index => str.set index replaceWith) 1 fuel str1 (find [c] str1 0)

/-- `replace` of a character by a string -/
def replaceCharWith (str1 : List UInt8) (c : UInt8) (replaceWith : List UInt8) (fuel : ℕ) :
    Option (List UInt8) :=
  replaceLoop [c] (fun str index => str.take index ++ replaceWith ++ str.drop (index + 1))
    replaceWith.length fuel str1 (find [c] str1 0)

/-- `replace` of a string by a string -/
def replace (str1 pattern replaceWith : List UInt8) (fuel : ℕ) : Option (List UInt8) :=
  replaceLoop pattern
    (fun str index => str.take index ++ replaceWith ++ str.drop (index + pattern.length))
    replaceWith.length fuel str1 (find pattern str1 0)

/-- The overloads for these arguments end, with the occurrences replaced. -/
structure Replaces (s p w : List UInt8) : Prop where
  string : ∃ fuel, replace s p w fuel = some (substitute p w s)
  char_string : ∀ c, p = [c] → ∃ fuel, replaceCharWith s c w fuel = some (substitute p w s)
  char : ∀ c d, p = [c] → w = [d] → ∃ fuel, replaceChar s c d fuel = some (substitute p w s)

/-! ### The loop -/

variable {s p w t : List UInt8} {edit : List UInt8 → ℕ → List UInt8}

/-- The text up to the position is done, and the measure is what comes behind it. -/
theorem replaceLoop_eq (hp : p ≠ []) (hedit : ∀ x y, edit (x ++ p ++ y) x.length = x ++ w ++ y)
    (x t : List UInt8) :
    ∃ fuel, replaceLoop p edit w.length fuel (x ++ t) (find p (x ++ t) x.length) =
      some (x ++ substitute p w t) := by
  induction hlen : t.length using Nat.strong_induction_on generalizing x t with
  | _ len ih =>
    have hfind : find p (x ++ t) x.length = (first p t).map (x.length + ·) := by
      unfold find
      rw [if_pos (by simp), List.drop_left]
    rw [hfind]
    cases h : first p t with
    | none => exact ⟨1, by rw [substitute_of_none h]; rfl⟩
    | some i =>
      obtain ⟨a, y, rfl, rfl, hsubstitute⟩ := substitute_of_some (w := w) hp h
      have hlt : y.length < len := by
        have hpos := List.length_pos_iff.mpr hp
        simp only [List.length_append] at hlen
        omega
      obtain ⟨fuel, hfuel⟩ := ih y.length hlt (x ++ a ++ w) y rfl
      refine ⟨fuel + 1, ?_⟩
      have hedit' : edit (x ++ (a ++ p ++ y)) (x.length + a.length) = x ++ a ++ w ++ y := by
        rw [← List.length_append, ← hedit (x ++ a) y]
        simp only [List.append_assoc]
      rw [Option.map_some, replaceLoop, hedit', hsubstitute]
      simp only [List.length_append, List.append_assoc, Nat.add_assoc] at hfuel ⊢
      exact hfuel

/-- The empty string is found again and again. -/
theorem replaceLoop_nil (w : List UInt8) (fuel pos : ℕ) (str : List UInt8)
    (hpos : pos ≤ str.length) :
    replaceLoop []
      (fun str index => str.take index ++ w ++ str.drop (index + ([] : List UInt8).length))
      w.length fuel str (find [] str pos) = none := by
  induction fuel generalizing str pos with
  | zero => rfl
  | succ fuel ih =>
    have hfind : find [] str pos = some pos := by
      unfold find
      rw [if_pos hpos, first_nil]
      rfl
    rw [hfind, replaceLoop]
    apply ih
    simp only [List.length_append, List.length_take_of_le hpos]
    omega

/-! ### The overloads -/

theorem replace_nil (s w : List UInt8) (fuel : ℕ) : replace s [] w fuel = none :=
  replaceLoop_nil w fuel 0 s (Nat.zero_le _)

theorem replace_eq (s : List UInt8) (hp : p ≠ []) (w : List UInt8) :
    ∃ fuel, replace s p w fuel = some (substitute p w s) := by
  apply replaceLoop_eq hp _ [] s
  intro x y
  simp

theorem replaceCharWith_eq (s : List UInt8) (c : UInt8) (w : List UInt8) :
    ∃ fuel, replaceCharWith s c w fuel = some (substitute [c] w s) := by
  apply replaceLoop_eq (List.cons_ne_nil c []) _ [] s
  intro x y
  simp

theorem replaceChar_eq (s : List UInt8) (c d : UInt8) :
    ∃ fuel, replaceChar s c d fuel = some (substitute [c] [d] s) := by
  apply replaceLoop_eq (w := [d]) (List.cons_ne_nil c []) _ [] s
  intro x y
  simp

theorem replaces_iff (s p w : List UInt8) : Replaces s p w ↔ p ≠ [] := by
  constructor
  · rintro h rfl
    obtain ⟨fuel, hfuel⟩ := h.string
    rw [replace_nil] at hfuel
    cases hfuel
  · intro hp
    refine ⟨replace_eq s hp w, ?_, ?_⟩
    · rintro c rfl
      exact replaceCharWith_eq s c w
    · rintro c d rfl rfl
      exact replaceChar_eq s c d

/-- `replace("", "", "")` -/
theorem not_replaces_of_nil : (∀ fuel, replace [] [] [] fuel = none) ∧ ¬Replaces [] [] [] := by
  refine ⟨replace_nil [] [], fun h => ?_⟩
  obtain ⟨fuel, hfuel⟩ := h.string
  rw [replace_nil] at hfuel
  cases hfuel

end Muhui.StringUtil
