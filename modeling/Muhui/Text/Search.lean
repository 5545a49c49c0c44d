/-
  The search for a pattern in a list, and what becomes of the list when the occurrences that are
  found from the left are replaced.

  `find` and `findOf` are the searches of the standard library from a position on, with `none` for
  `npos`.
-/
import Mathlib.Data.List.Infix
import Mathlib.Data.Nat.Notation

namespace Muhui.Search

variable {α : Type*} [DecidableEq α]

/-- The position of the first occurrence. -/
def first (p : List α) : List α → Option ℕ
  | [] => if p = [] then some 0 else none
  | c :: t => if p <+: c :: t then some 0 else (first p t).map (· + 1)

/-- The first occurrence that does not begin before `pos`. -/
def find (p t : List α) (pos : ℕ) : Option ℕ :=
  if pos ≤ t.length then (first p (t.drop pos)).map (pos + ·) else none

/-- The first element of a set, from `pos` on. -/
def findOf (set t : List α) (pos : ℕ) : Option ℕ :=
  ((t.drop pos).findIdx? (· ∈ set)).map (pos + ·)

/-- The list behind `skip` elements, with `w` in place of each occurrence of `p` that does not
overlap the one before it. The empty pattern occurs in front of each element and at the end. -/
def substituteFrom (p w : List α) : ℕ → List α → List α
  | 0, [] => if p = [] then w else []
  | 0, c :: t =>
    if p = [] then w ++ c :: substituteFrom p w 0 t
    else if p <+: c :: t then w ++ substituteFrom p w (p.length - 1) t
    else c :: substituteFrom p w 0 t
  | _ + 1, [] => []
  | skip + 1, _ :: t => substituteFrom p w skip t

def substitute (p w t : List α) : List α := substituteFrom p w 0 t

variable {p w t x y : List α} {c : α} {pos i : ℕ}

/-! ### Where a search stops -/

theorem first_nil (t : List α) : first [] t = some 0 := by
  cases t with
  | nil => rfl
  | cons c t => rw [first, if_pos List.nil_prefix]

theorem first_singleton (c : α) (t : List α) : first [c] t = t.findIdx? (· ∈ [c]) := by
  induction t with
  | nil => simp [first]
  | cons a t ih =>
    rw [first, List.findIdx?_cons, ih]
    by_cases h : a = c
    · simp [h]
    · simp [h, Ne.symm h]

theorem find_singleton (c : α) (t : List α) (pos : ℕ) : find [c] t pos = findOf [c] t pos := by
  unfold find findOf
  rw [first_singleton]
  split_ifs with h
  · rfl
  · rw [List.drop_eq_nil_of_le (by omega)]
    rfl

theorem findOf_spec {set : List α} (h : findOf set t pos = some i) :
    ∃ x c y, t.drop pos = x ++ c :: y ∧ i = pos + x.length ∧ c ∈ set ∧ ∀ a ∈ x, a ∉ set := by
  obtain ⟨n, hn, rfl⟩ := Option.map_eq_some_iff.mp h
  obtain ⟨hlt, hc, hx⟩ := List.findIdx?_eq_some_iff_getElem.mp hn
  refine ⟨(t.drop pos).take n, (t.drop pos)[n], (t.drop pos).drop (n + 1), ?_, ?_, ?_, ?_⟩
  · rw [List.getElem_cons_drop, List.take_append_drop]
  · rw [List.length_take_of_le hlt.le]
  · exact of_decide_eq_true hc
  · intro a ha
    obtain ⟨m, hm, rfl⟩ := List.mem_take_iff_getElem.mp ha
    simpa using hx m (by omega)

theorem findOf_eq_none {set : List α} (h : findOf set t pos = none) :
    ∀ c ∈ t.drop pos, c ∉ set := by
  intro c hc
  simpa using List.findIdx?_eq_none_iff.mp (Option.map_eq_none_iff.mp h) c hc

/-! ### What a search finds is what is replaced -/

theorem substituteFrom_drop (hp : p ≠ []) (skip : ℕ) (t : List α) :
    substituteFrom p w skip t = substitute p w (t.drop skip) := by
  induction skip generalizing t with
  | zero => rfl
  | succ skip ih =>
    cases t with
    | nil => simp [substitute, substituteFrom, hp]
    | cons c t => rw [substituteFrom, ih, List.drop_succ_cons]

theorem substitute_append (hp : p ≠ []) (y : List α) :
    substitute p w (p ++ y) = w ++ substitute p w y := by
  cases p with
  | nil => exact absurd rfl hp
  | cons c p =>
    have hprefix : c :: p <+: c :: (p ++ y) := List.prefix_append (c :: p) y
    show substituteFrom (c :: p) w 0 (c :: (p ++ y)) = _
    rw [substituteFrom, if_neg hp, if_pos hprefix, substituteFrom_drop hp, List.length_cons,
      Nat.add_sub_cancel, List.drop_left]

theorem substitute_of_none (h : first p t = none) : substitute p w t = t := by
  have hp : p ≠ [] := by
    rintro rfl
    rw [first_nil] at h
    cases h
  induction t with
  | nil => simp [substitute, substituteFrom, hp]
  | cons c t ih =>
    rw [first] at h
    split_ifs at h with hprefix
    show substituteFrom p w 0 (c :: t) = _
    rw [substituteFrom, if_neg hp, if_neg hprefix]
    exact congrArg (c :: ·) (ih (Option.map_eq_none_iff.mp h))

theorem substitute_of_some (hp : p ≠ []) (h : first p t = some i) :
    ∃ x y, t = x ++ p ++ y ∧ x.length = i ∧ substitute p w t = x ++ w ++ substitute p w y := by
  induction t generalizing i with
  | nil => simp [first, hp] at h
  | cons c t ih =>
    rw [first] at h
    split_ifs at h with hprefix
    · obtain rfl := Option.some.inj h
      obtain ⟨y, hy⟩ := hprefix
      refine ⟨[], y, hy.symm, rfl, ?_⟩
      rw [← hy, substitute_append hp]
      rfl
    · obtain ⟨n, hn, rfl⟩ := Option.map_eq_some_iff.mp h
      obtain ⟨x, y, rfl, rfl, hxy⟩ := ih hn
      refine ⟨c :: x, y, rfl, rfl, ?_⟩
      show substituteFrom p w 0 (c :: (x ++ p ++ y)) = _
      rw [substituteFrom, if_neg hp, if_neg hprefix]
      exact congrArg (c :: ·) hxy

end Muhui.Search
