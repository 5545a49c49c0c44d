/-
  `JsonUtil::NeedEscape` and `JsonUtil::Escape` (`json_util.cc`).

  `Escape` computes the length of the result first, and makes a text of that many NULs, to which it
  then appends the characters.  So the result is right when there is nothing to escape, and a text
  is returned as it is (`escapes_iff`).
-/
import Mathlib.Data.List.Basic
import Mathlib.Data.Nat.Notation

namespace Muhui.JsonUtil

/-- The labels of the `switch`: `\f`, `\t`, `\r`, `\n`, `\b`, `"` and `\`. -/
def labels : List UInt8 := [12, 9, 13, 10, 8, 34, 92]

/-- What is appended for a character. -/
def emit : UInt8 → List UInt8
  | 12 => [92, 102]
  | 9 => [92, 116]
  | 13 => [92, 114]
  | 10 => [92, 110]
  | 8 => [92, 98]
  | 34 => [92, 34]
  | 92 => [92, 92]
  | c => [c]

/-! ### The code -/

def needEscape (v : List UInt8) : Bool := v.any (· ∈ labels)

/-- The size that `Escape` computes. -/
def size (v : List UInt8) : ℕ := v.foldl (fun size c => size + if c ∈ labels then 2 else 1) 0

def escape (v : List UInt8) : List UInt8 :=
  if size v = v.length then v
  else v.foldl (fun rt c => rt ++ emit c) (List.replicate (size v) 0)

/-! ### What it is for -/

/-- Undoing the escapes. -/
def unescape : List UInt8 → List UInt8
  | 92 :: 102 :: rest => 12 :: unescape rest
  | 92 :: 116 :: rest => 9 :: unescape rest
  | 92 :: 114 :: rest => 13 :: unescape rest
  | 92 :: 110 :: rest => 10 :: unescape rest
  | 92 :: 98 :: rest => 8 :: unescape rest
  | 92 :: 34 :: rest => 34 :: unescape rest
  | 92 :: 92 :: rest => 92 :: unescape rest
  | c :: rest => c :: unescape rest
  | [] => []

/-- The result is made of the escapes and of the other characters, is of the computed size and can
be undone, and `NeedEscape` says whether it differs from the text. -/
structure Escapes (v : List UInt8) : Prop where
  exact : escape v = v.flatMap emit
  length : (escape v).length = size v
  undone : unescape (escape v) = v
  need : needEscape v = false ↔ escape v = v

/-! ### The two passes -/

variable {v : List UInt8} {c : UInt8}

theorem emit_of_notMem (h : c ∉ labels) : emit c = [c] := by
  unfold emit
  split <;> simp_all [labels]

theorem length_emit (c : UInt8) : (emit c).length = if c ∈ labels then 2 else 1 := by
  split_ifs with hc
  · have hall : ∀ a ∈ labels, (emit a).length = 2 := by
      simp [labels, emit]
    exact hall c hc
  · rw [emit_of_notMem hc]
    rfl

theorem flatMap_emit (h : ∀ c ∈ v, c ∉ labels) : v.flatMap emit = v := by
  induction v with
  | nil => rfl
  | cons c v ih =>
    rw [List.forall_mem_cons] at h
    rw [List.flatMap_cons, emit_of_notMem h.1, ih h.2, List.singleton_append]

/-- The two passes agree about the length. -/
theorem size_eq (v : List UInt8) : size v = (v.flatMap emit).length := by
  have hfold : ∀ n, v.foldl (fun size c => size + if c ∈ labels then 2 else 1) n =
      n + (v.flatMap emit).length := by
    induction v with
    | nil => simp
    | cons c v ih =>
      intro n
      rw [List.foldl_cons, ih, List.flatMap_cons, List.length_append, length_emit, Nat.add_assoc]
  rw [size, hfold, Nat.zero_add]

theorem length_le_size (v : List UInt8) : v.length ≤ size v := by
  rw [size_eq]
  induction v with
  | nil => simp
  | cons c v ih =>
    have hemit := length_emit c
    rw [List.flatMap_cons, List.length_append, List.length_cons]
    split_ifs at hemit <;> omega

theorem size_eq_length_iff : size v = v.length ↔ ∀ c ∈ v, c ∉ labels := by
  constructor
  · intro h
    induction v with
    | nil => simp
    | cons c v ih =>
      have hle := length_le_size v
      have hemit := length_emit c
      rw [size_eq, List.flatMap_cons, List.length_append, ← size_eq, List.length_cons] at h
      rw [List.forall_mem_cons]
      split_ifs at hemit with hc
      · omega
      · exact ⟨hc, ih (by omega)⟩
  · intro h
    rw [size_eq, flatMap_emit h]

theorem foldl_emit (v rt : List UInt8) :
    v.foldl (fun rt c => rt ++ emit c) rt = rt ++ v.flatMap emit := by
  induction v generalizing rt with
  | nil => simp
  | cons c v ih => rw [List.foldl_cons, ih, List.flatMap_cons, List.append_assoc]

/-- A text with nothing to escape is returned. -/
theorem escape_of_plain (h : ∀ c ∈ v, c ∉ labels) : escape v = v := by
  unfold escape
  rw [if_pos (size_eq_length_iff.mpr h)]

/-- What is returned otherwise: the escaped form, behind as many NULs. -/
theorem escape_of_not_plain (h : ¬∀ c ∈ v, c ∉ labels) :
    escape v = List.replicate (size v) 0 ++ v.flatMap emit := by
  unfold escape
  rw [foldl_emit, if_neg fun hsize => h (size_eq_length_iff.mp hsize)]

/-- The escaped form can be undone, whatever comes behind it. -/
theorem unescape_emit (c : UInt8) (rest : List UInt8) :
    unescape (emit c ++ rest) = c :: unescape rest := by
  by_cases hc : c ∈ labels
  · simp only [labels, List.mem_cons, List.not_mem_nil, or_false] at hc
    rcases hc with rfl | rfl | rfl | rfl | rfl | rfl | rfl <;> rfl
  · rw [emit_of_notMem hc, List.singleton_append]
    have hne : c ≠ 92 := by
      rintro rfl
      exact hc (by simp [labels])
    rw [unescape]
    all_goals
      intro rest' heq
      exact absurd heq hne

theorem unescape_flatMap (v : List UInt8) : unescape (v.flatMap emit) = v := by
  induction v with
  | nil => rfl
  | cons c v ih => rw [List.flatMap_cons, unescape_emit, ih]

theorem needEscape_eq_false_iff : needEscape v = false ↔ ∀ c ∈ v, c ∉ labels := by
  unfold needEscape
  simp

/-! ### When the result is right -/

/-- The result is right when there is nothing to escape. -/
theorem escapes_iff (v : List UInt8) : Escapes v ↔ ∀ c ∈ v, c ∉ labels := by
  constructor
  · intro h
    by_contra hsome
    have hlength := h.length
    -- the NULs come in addition
    rw [escape_of_not_plain hsome, List.length_append, List.length_replicate, ← size_eq] at hlength
    have hzero : size v = 0 := by omega
    have hnil := length_le_size v
    rw [hzero, Nat.le_zero, List.length_eq_zero_iff] at hnil
    exact hsome (by simp [hnil])
  · intro h
    have hescape := escape_of_plain h
    have hemit := flatMap_emit h
    constructor
    · rw [hescape, hemit]
    · rw [hescape, size_eq_length_iff.mpr h]
    · rw [hescape]
      conv_lhs => rw [← hemit]
      exact unescape_flatMap v
    · simp only [needEscape_eq_false_iff, hescape, iff_true]
      exact h

/-- A quotation mark becomes two NULs and the escape. -/
theorem not_escapes_of_quote :
    escape [34] = [0, 0, 92, 34] ∧ ¬Escapes [34] := by
  have hescape : escape [34] = [0, 0, 92, 34] := by decide
  refine ⟨hescape, ?_⟩
  intro h
  have hexact := h.exact
  rw [hescape] at hexact
  exact absurd hexact (by decide)

end Muhui.JsonUtil
