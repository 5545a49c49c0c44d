/-
  An ordered set kept as a sorted list, with the comparator as a parameter.

  This is the part of the interface of a balanced search tree that depends on the comparator only:
  `insert`, `find` and `lowerBound`, with positions in place of iterators (`none` is the end
  iterator of `find`, the length is the end iterator of `lowerBound`).  The comparator is a
  `Bool`-valued function and may read a heap, so it is an explicit argument everywhere; what it has
  to satisfy is collected in `StrictTotal`, and `Sorted` is the representation invariant.
-/
import Mathlib.Data.List.Basic
import Mathlib.Data.List.Nodup

namespace Muhui.OrderedSet

variable {α : Type*}

/-- The comparator is a strict total order. -/
structure StrictTotal (lt : α → α → Bool) : Prop where
  irrefl : ∀ a, lt a a = false
  trans : ∀ a b c, lt a b = true → lt b c = true → lt a c = true
  trichotomous : ∀ a b, lt a b = false → lt b a = false → a = b

/-- The representation invariant: strictly increasing in the comparator. -/
def Sorted (lt : α → α → Bool) (l : List α) : Prop :=
  l.Pairwise fun a b => lt a b = true

/-- Inserts `x` before the first larger element; nothing happens when an equivalent element is
already there. -/
def insert (lt : α → α → Bool) (x : α) : List α → List α
  | [] => [x]
  | y :: ys => if lt x y then x :: y :: ys else if lt y x then y :: insert lt x ys else y :: ys

/-- The position of the element equivalent to `x`. -/
def find (lt : α → α → Bool) (x : α) : List α → Option ℕ
  | [] => none
  | y :: ys => if lt y x then (find lt x ys).map (· + 1) else if lt x y then none else some 0

/-- The position of the first element that is not smaller than `x`. -/
def lowerBound (lt : α → α → Bool) (x : α) : List α → ℕ
  | [] => 0
  | y :: ys => if lt y x then lowerBound lt x ys + 1 else 0

variable {lt lt' : α → α → Bool} {x y : α} {l : List α}

theorem mem_insert (h : StrictTotal lt) : y ∈ insert lt x l ↔ y = x ∨ y ∈ l := by
  induction l with
  | nil => simp [insert]
  | cons z zs ih =>
    rw [insert]
    split_ifs with hxz hzx
    · simp
    · rw [List.mem_cons, ih, List.mem_cons]; tauto
    · obtain rfl : x = z := h.trichotomous x z (by simpa using hxz) (by simpa using hzx)
      rw [List.mem_cons]; tauto

theorem Sorted.insert (h : StrictTotal lt) (hl : Sorted lt l) : Sorted lt (insert lt x l) := by
  induction l with
  | nil => exact List.pairwise_singleton _ _
  | cons z zs ih =>
    obtain ⟨hz, hzs⟩ := List.pairwise_cons.mp hl
    rw [OrderedSet.insert]
    split_ifs with hxz hzx
    · refine List.pairwise_cons.mpr ⟨fun w hw => ?_, hl⟩
      rcases List.mem_cons.mp hw with rfl | hw
      · exact hxz
      · exact h.trans x z w hxz (hz w hw)
    · refine List.pairwise_cons.mpr ⟨fun w hw => ?_, ih hzs⟩
      rcases (mem_insert h).mp hw with rfl | hw
      · exact hzx
      · exact hz w hw
    · exact hl

theorem Sorted.nodup (h : StrictTotal lt) (hl : Sorted lt l) : l.Nodup := by
  refine List.Pairwise.imp (fun {a b} hab heq => ?_) hl
  rw [heq, h.irrefl] at hab
  exact Bool.false_ne_true hab

/-- On a sorted list `find` locates every element, and erasing at the position it returns erases
the element. -/
theorem exists_find_of_mem [DecidableEq α] (h : StrictTotal lt) (hl : Sorted lt l) (hx : x ∈ l) :
    ∃ i, find lt x l = some i ∧ l.eraseIdx i = l.erase x := by
  induction l with
  | nil => cases hx
  | cons z zs ih =>
    obtain ⟨hz, hzs⟩ := List.pairwise_cons.mp hl
    rcases List.mem_cons.mp hx with rfl | hx
    · exact ⟨0, by simp [find, h.irrefl], by simp⟩
    · have hzx := hz x hx
      have hne : z ≠ x := by
        rintro rfl
        rw [h.irrefl] at hzx
        exact Bool.false_ne_true hzx
      obtain ⟨i, hi, herase⟩ := ih hzs hx
      refine ⟨i + 1, by rw [find, if_pos hzx, hi]; rfl, ?_⟩
      rw [List.eraseIdx_cons_succ, herase, List.erase_cons_tail (by simpa using hne)]

/-- What comes before the lower bound is smaller. -/
theorem lt_of_mem_take_lowerBound (hy : y ∈ l.take (lowerBound lt x l)) : lt y x = true := by
  induction l with
  | nil => cases hy
  | cons z zs ih =>
    rw [lowerBound] at hy
    split_ifs at hy with hzx
    · rw [List.take_succ_cons] at hy
      rcases List.mem_cons.mp hy with rfl | hy
      · exact hzx
      · exact ih hy
    · cases hy

/-- The element at the lower bound is not smaller. -/
theorem not_lt_of_drop_lowerBound {ys : List α} (hdrop : l.drop (lowerBound lt x l) = y :: ys) :
    lt y x = false := by
  induction l with
  | nil => cases hdrop
  | cons z zs ih =>
    rw [lowerBound] at hdrop
    split_ifs at hdrop with hzx
    · exact ih hdrop
    · obtain ⟨rfl, rfl⟩ := List.cons.inj hdrop
      exact Bool.eq_false_iff.mpr hzx

/-- Sortedness only reads the comparator on the elements of the list. -/
theorem Sorted.congr (hl : Sorted lt l) (heq : ∀ a ∈ l, ∀ b ∈ l, lt' a b = lt a b) :
    Sorted lt' l := by
  refine List.Pairwise.imp_of_mem (fun {a b} ha hb hab => ?_) hl
  rw [heq a ha b hb, hab]

end Muhui.OrderedSet
