/-
  Lists that are sorted by a strict weak order.

  A predicate that each element passes on to those before it holds of the first `countP` elements
  and of no others (`apply_getElem_iff`).  In a sorted list these are the elements less than a value
  (`getElem_lt_iff`), and behind those that are not greater come the greater ones
  (`lt_getElem_iff`).
-/
import Mathlib.Algebra.Ring.Nat
import Mathlib.Data.List.Basic
import Mathlib.Order.Defs.Unbundled
import Mathlib.Order.Lattice

namespace Muhui.Container

section Cut

variable {α : Type*} {p : α → Bool} {l : List α}

theorem apply_getElem_iff (h : l.Pairwise fun a b => p b = true → p a = true) {i : ℕ}
    (hi : i < l.length) : p l[i] = true ↔ i < l.countP p := by
  induction l generalizing i with
  | nil => simp at hi
  | cons a l ih =>
    rw [List.pairwise_cons] at h
    by_cases ha : p a = true
    · rw [List.countP_cons_of_pos ha]
      cases i with
      | zero => simp [ha]
      | succ i =>
        rw [List.getElem_cons_succ, ih h.2, Nat.succ_lt_succ_iff]
    · -- an element behind `a` would pass the predicate on to it
      have hnone : ∀ b ∈ a :: l, ¬ p b = true := by
        intro b hb
        rcases List.mem_cons.mp hb with rfl | hb
        · exact ha
        · exact fun hpb => ha (h.1 b hb hpb)
      rw [List.countP_eq_zero.mpr hnone]
      exact iff_of_false (hnone _ (List.getElem_mem hi)) (Nat.not_lt_zero i)

end Cut

section Sorted

variable {α : Type*} [LT α]

/-- No element is less than one before it. -/
def Sorted (l : List α) : Prop := l.Pairwise fun a b => ¬ b < a

/-- Neither is less than the other. -/
def Equivalent (a b : α) : Prop := ¬ a < b ∧ ¬ b < a

/-- How many elements are less than `v`. -/
def below [DecidableLT α] (l : List α) (v : α) : ℕ := l.countP fun a => a < v

/-- How many elements are not greater than `v`. -/
def upTo [DecidableLT α] (l : List α) (v : α) : ℕ := l.countP fun a => ¬ v < a

instance isStrictWeakOrder_lt {β : Type*} [LinearOrder β] : IsStrictWeakOrder β (· < ·) where
  irrefl := lt_irrefl
  trans _ _ _ := lt_trans
  incomp_trans a b c hab hbc := by
    rw [not_lt, not_lt] at hab
    rw [le_antisymm hab.2 hab.1]
    exact hbc

variable [IsStrictWeakOrder α (· < ·)] {a b v : α}

/-- What is greater than `v` cannot be less than what is not. -/
theorem lt_of_lt_of_not_lt (hva : v < a) (hba : ¬ b < a) : v < b := by
  by_contra hvb
  have hbv : ¬ b < v := fun hbv => hba (IsTrans.trans (r := (· < ·)) b v a hbv hva)
  have hab : ¬ a < b := fun hab => hvb (IsTrans.trans (r := (· < ·)) v a b hva hab)
  exact (@IsStrictWeakOrder.incomp_trans α (· < ·) _ v b a ⟨hvb, hbv⟩ ⟨hba, hab⟩).1 hva

theorem lt_of_not_lt_of_lt (hab : ¬ a < b) (hav : a < v) : b < v := by
  by_contra hbv
  have hvb : ¬ v < b := fun hvb => hab (IsTrans.trans (r := (· < ·)) a v b hav hvb)
  have hba : ¬ b < a := fun hba => hbv (IsTrans.trans (r := (· < ·)) b a v hba hav)
  exact (@IsStrictWeakOrder.incomp_trans α (· < ·) _ a b v ⟨hab, hba⟩ ⟨hbv, hvb⟩).1 hav

theorem not_lt_of_lt (h : a < b) : ¬ b < a := fun hba =>
  Std.Irrefl.irrefl (r := (· < ·)) a (IsTrans.trans (r := (· < ·)) a b a h hba)

variable [DecidableLT α] {l : List α} {i : ℕ}

theorem getElem_lt_iff (h : Sorted l) (v : α) (hi : i < l.length) :
    l[i] < v ↔ i < below l v := by
  have hcut := apply_getElem_iff (p := fun a => decide (a < v))
    (h.imp fun hba => by
      intro hb
      rw [decide_eq_true_iff] at hb ⊢
      exact lt_of_not_lt_of_lt hba hb) hi
  rwa [decide_eq_true_iff] at hcut

theorem lt_getElem_iff (h : Sorted l) (v : α) (hi : i < l.length) :
    v < l[i] ↔ upTo l v ≤ i := by
  have hcut := apply_getElem_iff (p := fun a => decide (¬ v < a))
    (h.imp fun hba => by
      intro hb
      rw [decide_eq_true_iff] at hb ⊢
      exact fun hva => hb (lt_of_lt_of_not_lt hva hba)) hi
  rw [decide_eq_true_iff] at hcut
  rw [← not_lt, upTo, ← hcut, not_not]

theorem below_le_upTo (l : List α) (v : α) : below l v ≤ upTo l v := by
  apply List.countP_mono_left
  intro a _ ha
  rw [decide_eq_true_iff] at ha ⊢
  exact not_lt_of_lt ha

theorem equivalent_getElem_iff (h : Sorted l) (v : α) (hi : i < l.length) :
    Equivalent l[i] v ↔ below l v ≤ i ∧ i < upTo l v := by
  rw [Equivalent, getElem_lt_iff h, lt_getElem_iff h, not_lt, not_le]

/-- There is an equivalent element exactly when the two counts differ. -/
theorem exists_equivalent_iff (h : Sorted l) (v : α) :
    (∃ a ∈ l, Equivalent a v) ↔ below l v < upTo l v := by
  constructor
  · rintro ⟨a, ha, hav⟩
    obtain ⟨i, hi, rfl⟩ := List.getElem_of_mem ha
    rw [equivalent_getElem_iff h] at hav
    exact Nat.lt_of_le_of_lt hav.1 hav.2
  · intro hlt
    have hi : below l v < l.length := Nat.lt_of_lt_of_le hlt List.countP_le_length
    exact ⟨l[below l v], List.getElem_mem hi, (equivalent_getElem_iff h v hi).mpr ⟨le_rfl, hlt⟩⟩

end Sorted

end Muhui.Container
