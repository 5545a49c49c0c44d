/-
  A memory that is a list of blocks of one length, and the flat list that it stands for.

  `slice` and `overwrite` read and write a range of a list.  Each has a rule for a range that lies
  behind the first part of the list, and one for a range that crosses from the first part into the
  second, so that a walk over the blocks is followed block by block.
-/
import Mathlib.Data.List.Basic
import Mathlib.Data.Nat.Notation
import Mathlib.Tactic.Ring

namespace Muhui

variable {α : Type*}

/-! ### Ranges of a list -/

/-- The `n` elements of the list from index `k` on. -/
def slice (l : List α) (k n : ℕ) : List α := (l.drop k).take n

/-- The list with the elements from index `k` on replaced by `xs`. -/
def overwrite (l : List α) (k : ℕ) (xs : List α) : List α :=
  l.take k ++ (xs ++ l.drop (k + xs.length))

variable {l l' xs ys : List α} {k n : ℕ}

@[simp] theorem slice_zero (l : List α) (k : ℕ) : slice l k 0 = [] := rfl

theorem length_slice (h : k + n ≤ l.length) : (slice l k n).length = n := by
  rw [slice, List.length_take, List.length_drop]
  omega

theorem getElem?_slice (l : List α) (k n i : ℕ) :
    (slice l k n)[i]? = if i < n then l[k + i]? else none := by
  rw [slice, List.getElem?_take, List.getElem?_drop]

/-- A range behind the first part of a list. -/
theorem slice_append_right (h : l.length ≤ k) :
    slice (l ++ l') k n = slice l' (k - l.length) n := by
  rw [slice, List.drop_append, List.drop_eq_nil_of_le h, List.nil_append]
  rfl

theorem slice_append_left (h : k + n ≤ l.length) : slice (l ++ l') k n = slice l k n := by
  rw [slice, List.drop_append_of_le_length (by omega), List.take_append_of_le_length, slice]
  rw [List.length_drop]
  omega

/-- A range from the first part of a list into the second. -/
theorem slice_append (h : k ≤ l.length) (hn : l.length - k ≤ n) :
    slice (l ++ l') k n = slice l k (l.length - k) ++ slice l' 0 (n - (l.length - k)) := by
  have hall : (l.drop k).length ≤ n := by
    rw [List.length_drop]
    exact hn
  have hleft : slice l k (l.length - k) = l.drop k :=
    List.take_of_length_le (by rw [List.length_drop])
  rw [hleft, slice, List.drop_append_of_le_length h, List.take_append,
    List.take_of_length_le hall, List.length_drop]
  rfl

theorem slice_add (l : List α) (k n n' : ℕ) :
    slice l k (n + n') = slice l k n ++ slice l (k + n) n' := by
  rw [slice, List.take_add, List.drop_drop]
  rfl

theorem slice_append_append (h : xs.length = k) (hn : ys.length = n) :
    slice (xs ++ (ys ++ l)) k n = ys := by
  rw [slice_append_right h.le, h, Nat.sub_self, slice, List.drop_zero, ← hn, List.take_left]

@[simp] theorem overwrite_nil (l : List α) (k : ℕ) : overwrite l k [] = l := by
  rw [overwrite, List.nil_append]
  exact List.take_append_drop k l

/-- What is written may reach behind the end of the list. -/
theorem length_overwrite_eq_max (h : k ≤ l.length) :
    (overwrite l k xs).length = max l.length (k + xs.length) := by
  rw [overwrite, List.length_append, List.length_append, List.length_take, List.length_drop]
  omega

theorem length_overwrite (h : k + xs.length ≤ l.length) :
    (overwrite l k xs).length = l.length := by
  rw [length_overwrite_eq_max (by omega), max_eq_left h]

theorem getElem?_overwrite (h : k ≤ l.length) (i : ℕ) :
    (overwrite l k xs)[i]? =
      if i < k then l[i]? else if i < k + xs.length then xs[i - k]? else l[i]? := by
  have hk : (l.take k).length = k := by
    rw [List.length_take]
    omega
  rw [overwrite]
  split_ifs with h₁ h₂
  · rw [List.getElem?_append_left (by omega), List.getElem?_take, if_pos h₁]
  · rw [List.getElem?_append_right (by omega), hk, List.getElem?_append_left (by omega)]
  · rw [List.getElem?_append_right (by omega), hk, List.getElem?_append_right (by omega),
      List.getElem?_drop]
    congr 1
    omega

theorem overwrite_append_right (h : l.length ≤ k) :
    overwrite (l ++ l') k xs = l ++ overwrite l' (k - l.length) xs := by
  rw [overwrite, overwrite, List.take_append, List.take_of_length_le h, List.drop_append,
    List.drop_eq_nil_of_le (by omega), List.nil_append, List.append_assoc]
  congr 4
  omega

theorem overwrite_append_left (h : k + xs.length ≤ l.length) :
    overwrite (l ++ l') k xs = overwrite l k xs ++ l' := by
  rw [overwrite, overwrite, List.take_append_of_le_length (by omega),
    List.drop_append_of_le_length h, List.append_assoc, List.append_assoc]

/-- What is written crosses from the first part of a list into the second. -/
theorem overwrite_append (h : k ≤ l.length) (hx : xs.length = l.length - k) :
    overwrite (l ++ l') k (xs ++ ys) = overwrite l k xs ++ overwrite l' 0 ys := by
  have hend : k + xs.length = l.length := by omega
  have hdrop : (l ++ l').drop (k + (xs ++ ys).length) = l'.drop ys.length := by
    rw [List.length_append, ← Nat.add_assoc, hend, List.drop_append, List.drop_eq_nil_of_le,
      List.nil_append, Nat.add_sub_cancel_left]
    omega
  rw [overwrite, hdrop, overwrite, overwrite, List.take_append_of_le_length h, hend,
    List.drop_length, List.take_zero, List.nil_append, List.append_nil, Nat.zero_add,
    List.append_assoc, List.append_assoc]

/-- What lies before the range that is written. -/
theorem slice_overwrite_before (h : k ≤ l.length) :
    slice (overwrite l k xs) 0 k = slice l 0 k := by
  have hk : (l.take k).length = k := by
    rw [List.length_take]
    omega
  rw [overwrite, slice_append_left (by omega), slice, slice, List.drop_zero, List.drop_zero,
    List.take_take, Nat.min_self]

theorem slice_overwrite (h : k + xs.length ≤ l.length) :
    slice (overwrite l k xs) k xs.length = xs :=
  slice_append_append (by rw [List.length_take]; omega) rfl

/-! ### Blocks -/

/-- All blocks have this length. -/
def Uniform (b : ℕ) (blocks : List (List α)) : Prop := ∀ block ∈ blocks, block.length = b

variable {b c : ℕ} {block : List α} {blocks blocks' : List (List α)}

theorem uniform_cons : Uniform b (block :: blocks) ↔ block.length = b ∧ Uniform b blocks :=
  List.forall_mem_cons

theorem uniform_append : Uniform b (blocks ++ blocks') ↔ Uniform b blocks ∧ Uniform b blocks' :=
  List.forall_mem_append

theorem Uniform.drop (h : Uniform b blocks) (c : ℕ) : Uniform b (blocks.drop c) :=
  fun block hblock => h block (List.mem_of_mem_drop hblock)

theorem Uniform.take (h : Uniform b blocks) (c : ℕ) : Uniform b (blocks.take c) :=
  fun block hblock => h block (List.mem_of_mem_take hblock)

theorem Uniform.length_flatten (h : Uniform b blocks) :
    blocks.flatten.length = b * blocks.length := by
  induction blocks with
  | nil => rfl
  | cons block blocks ih =>
    rw [uniform_cons] at h
    rw [List.flatten_cons, List.length_append, ih h.2, h.1, List.length_cons]
    ring

/-- The blocks before block `c` hold the first `b * c` elements. -/
theorem Uniform.flatten_take (h : Uniform b blocks) (hc : c ≤ blocks.length) :
    (blocks.take c).flatten.length = b * c := by
  rw [(h.take c).length_flatten, List.length_take, Nat.min_eq_left hc]

theorem flatten_eq_take_drop (blocks : List (List α)) (c : ℕ) :
    blocks.flatten = (blocks.take c).flatten ++ (blocks.drop c).flatten := by
  rw [← List.flatten_append, List.take_append_drop]

/-- A range behind the start of block `c`. -/
theorem Uniform.slice_drop (h : Uniform b blocks) (hc : c ≤ blocks.length) (k n : ℕ) :
    slice (blocks.drop c).flatten k n = slice blocks.flatten (b * c + k) n := by
  rw [flatten_eq_take_drop blocks c, slice_append_right, h.flatten_take hc,
    Nat.add_sub_cancel_left]
  rw [h.flatten_take hc]
  omega

theorem Uniform.overwrite_drop (h : Uniform b blocks) (hc : c ≤ blocks.length) (k : ℕ)
    (xs : List α) :
    (blocks.take c).flatten ++ overwrite (blocks.drop c).flatten k xs =
      overwrite blocks.flatten (b * c + k) xs := by
  rw [flatten_eq_take_drop blocks c, overwrite_append_right, h.flatten_take hc,
    Nat.add_sub_cancel_left]
  rw [h.flatten_take hc]
  omega

/-- A range inside block `c`. -/
theorem Uniform.slice_block (h : Uniform b blocks) (hc : blocks[c]? = some block)
    (hk : k + n ≤ b) : slice blocks.flatten (b * c + k) n = slice block k n := by
  obtain ⟨hlt, rfl⟩ := List.getElem?_eq_some_iff.mp hc
  have hblock : blocks[c].length = b := h _ (List.getElem_mem hlt)
  rw [← h.slice_drop hlt.le, List.drop_eq_getElem_cons hlt, List.flatten_cons,
    slice_append_left (by rw [hblock]; exact hk)]

theorem Uniform.modify (h : Uniform b blocks) (hk : k + xs.length ≤ b) (c : ℕ) :
    Uniform b (blocks.modify c (overwrite · k xs)) := by
  intro block hblock
  obtain ⟨i, hi⟩ := List.mem_iff_getElem?.mp hblock
  rw [List.getElem?_modify] at hi
  obtain ⟨block', hblock', rfl⟩ := Option.map_eq_some_iff.mp hi
  have hlength := h block' (List.mem_of_getElem? hblock')
  split_ifs
  · rw [length_overwrite (by rw [hlength]; exact hk), hlength]
  · exact hlength

/-- Writing inside block `c`. -/
theorem Uniform.flatten_modify (h : Uniform b blocks) (hc : c < blocks.length)
    (hk : k + xs.length ≤ b) :
    (blocks.modify c (overwrite · k xs)).flatten = overwrite blocks.flatten (b * c + k) xs := by
  induction blocks generalizing c with
  | nil => exact absurd hc (Nat.not_lt_zero c)
  | cons block blocks ih =>
    obtain ⟨hblock, hblocks⟩ := uniform_cons.mp h
    cases c with
    | zero =>
      rw [List.modify_zero_cons, List.flatten_cons, List.flatten_cons, Nat.mul_zero, Nat.zero_add,
        overwrite_append_left (by rw [hblock]; exact hk)]
    | succ c =>
      have hindex : b * (c + 1) + k - block.length = b * c + k := by
        rw [hblock, Nat.mul_add, Nat.mul_one]
        omega
      rw [List.modify_succ_cons, List.flatten_cons, List.flatten_cons,
        ih hblocks (Nat.lt_of_succ_lt_succ hc), overwrite_append_right, hindex]
      rw [hblock, Nat.mul_add, Nat.mul_one]
      omega

/-- Blocks of one length are determined by what they hold. -/
theorem Uniform.flatten_inj (hb : 0 < b) (h : Uniform b blocks) (h' : Uniform b blocks')
    (heq : blocks.flatten = blocks'.flatten) : blocks = blocks' := by
  induction blocks generalizing blocks' with
  | nil =>
    have hlength := congrArg List.length heq
    rw [h.length_flatten, h'.length_flatten, List.length_nil, Nat.mul_zero] at hlength
    have hzero : blocks'.length = 0 := by
      rcases Nat.eq_zero_or_pos blocks'.length with hz | hpos
      · exact hz
      · have := Nat.mul_pos hb hpos
        omega
    exact (List.length_eq_zero_iff.mp hzero).symm
  | cons block blocks ih =>
    rw [uniform_cons] at h
    cases blocks' with
    | nil =>
      have hlength := congrArg List.length heq
      rw [List.flatten_cons, List.length_append, h.1] at hlength
      simp only [List.flatten_nil, List.length_nil] at hlength
      omega
    | cons block' blocks' =>
      rw [uniform_cons] at h'
      rw [List.flatten_cons, List.flatten_cons] at heq
      obtain ⟨hblock, hrest⟩ := List.append_inj heq (h.1.trans h'.1.symm)
      rw [hblock, ih h.2 h'.2 hrest]

end Muhui
