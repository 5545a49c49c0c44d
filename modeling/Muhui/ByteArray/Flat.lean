/-
  A `ByteArray` is a flat vector with a cursor, which grows as it is written to.

  `Flat` is that vector: a byte that has not been written since the last `clear` is `none`.  The
  blocks, the pointer to the current node and the memory of the nodes do not show (`Refines`).
-/
import Muhui.ByteArray.Wellformed
import Muhui.Transition.Run

namespace Muhui.ByteArray

/-! ### The flat vector -/

/-- The functions that edit a `ByteArray` without reading from it. -/
inductive Edit
  | write (buf : List UInt8)
  | setPosition (v : ℕ)
  | clear
  deriving DecidableEq

structure Flat where
  bytes : List (Option UInt8)
  cursor : ℕ
  capacity : ℕ
  deriving DecidableEq

namespace Flat

def init (b : ℕ) : Flat := { bytes := [], cursor := 0, capacity := b }

/-- An edit of the vector, with room for whole multiples of `b`; `none` is out of range. -/
def edit (b : ℕ) (f : Flat) : Edit → Option Flat
  | .write buf => some
    { bytes := overwrite f.bytes f.cursor (buf.map some)
      cursor := f.cursor + buf.length
      capacity := f.capacity + blocksFor b (f.cursor + buf.length - f.capacity) * b }
  | .setPosition v =>
    if f.capacity < v then none
    else some
      { f with bytes := f.bytes ++ List.replicate (v - f.bytes.length) none, cursor := v }
  | .clear => some (init b)

/-- What is out of range changes nothing. -/
def edits (b : ℕ) (f : Flat) (es : List Edit) : Flat :=
  es.foldl (fun f e => (f.edit b e).getD f) f

end Flat

/-! ### The code -/

def edit (fill : ℕ → ℕ → UInt8) (s : ByteArray) : Edit → Outcome Unit
  | .write buf => s.write fill buf
  | .setPosition v => s.setPosition v
  | .clear => .returns s.clear ()

/-- The state that an edit leaves behind, whether it throws or not. -/
def edited (fill : ℕ → ℕ → UInt8) (s : ByteArray) (e : Edit) : Option ByteArray :=
  match s.edit fill e with
  | .returns s' _ => some s'
  | .throws s' => some s'
  | .faults => none

/-- What shows of the vector: its cursor and its sizes, which positions are out of range, and the
bytes from the cursor on that have been written. -/
structure Shows (s : ByteArray) (f : Flat) : Prop where
  position : s.position = f.cursor
  size : s.size = f.bytes.length
  capacity : s.capacity = f.capacity
  throws : ∀ v, f.capacity < v → s.setPosition v = .throws s
  returns : ∀ v, v ≤ f.capacity → ∃ t, s.setPosition v = .returns t ()
  string : ∃ str, s.toString = .returns s str ∧ str.length = f.bytes.length - f.cursor ∧
    ∀ (i : ℕ) (x : UInt8), f.bytes[f.cursor + i]? = some (some x) → str[i]? = some x

/-! ### The refinement -/

/-- The vector `f` with blocks of `b` bytes is the state `s`. -/
structure Refines (b : ℕ) (s : ByteArray) (f : Flat) : Prop where
  wellformed : s.Wellformed
  baseSize : s.baseSize = b
  position : s.position = f.cursor
  size : s.size = f.bytes.length
  capacity : s.capacity = f.capacity
  written : ∀ (i : ℕ) (x : UInt8), f.bytes[i]? = some (some x) → s.content[i]? = some x

variable (fill : ℕ → ℕ → UInt8) {b : ℕ} {s : ByteArray} {f f' : Flat} {e : Edit}

theorem refines_init (hb : 1 ≤ b) : Refines b (init fill b) (Flat.init b) :=
  ⟨wellformed_init fill hb, rfl, rfl, rfl, rfl, nofun⟩

theorem Refines.shows (h : Refines b s f) : Shows s f where
  position := h.position
  size := h.size
  capacity := h.capacity
  throws v hv := setPosition_of_lt (by rw [h.capacity]; exact hv)
  returns v hv := by
    obtain ⟨t, ht, -⟩ := h.wellformed.setPosition (show v ≤ s.capacity by rw [h.capacity]; exact hv)
    exact ⟨t, ht⟩
  string := by
    have hle := h.wellformed.position
    have hsize := h.wellformed.size
    refine ⟨_, toString_eq h.wellformed, ?_, fun i x hx => ?_⟩
    · rw [length_slice, h.size, h.position]
      rw [h.wellformed.length_content]
      omega
    · have hlt : f.cursor + i < f.bytes.length := by
        by_contra hge
        rw [List.getElem?_eq_none (by omega)] at hx
        cases hx
      rw [getElem?_slice, if_pos, h.position]
      · exact h.written _ x hx
      · rw [h.size, h.position]
        omega

theorem Refines.write (h : Refines b s f) (buf : List UInt8) :
    ∃ t f', s.write fill buf = .returns t () ∧ f.edit b (.write buf) = some f' ∧
      Refines b t f' := by
  obtain ⟨t, hwrite, ht⟩ := h.wellformed.write fill buf
  obtain ⟨h₁, hroom, new, hcontent⟩ := h.wellformed.addCapacity fill buf.length
  have hcursor : f.cursor ≤ f.bytes.length := by
    rw [← h.position, ← h.size]
    exact h.wellformed.position
  -- both grow by the blocks that are missing, which may be none
  have hcapacity₁ : (s.addCapacity fill buf.length).capacity =
      f.capacity + blocksFor b (f.cursor + buf.length - f.capacity) * b := by
    rw [← h.position, ← h.capacity, ← h.baseSize]
    rcases Nat.lt_or_ge s.capacity (s.position + buf.length) with hlt | hge
    · rw [addCapacity_of_lt fill h.wellformed hlt]
    · have hbase := h.wellformed.base
      have hzero : blocksFor s.baseSize (s.position + buf.length - s.capacity) = 0 := by
        rw [Nat.sub_eq_zero_of_le hge, blocksFor, Nat.zero_add]
        exact Nat.div_eq_of_lt (by omega)
      rw [addCapacity_of_le fill h.wellformed hge, hzero, Nat.zero_mul, Nat.add_zero]
  have hlength₁ := h₁.length_content
  have hcapacity : t.capacity = (s.addCapacity fill buf.length).capacity := by
    rw [← ht.wellformed.length_content, ht.content, length_overwrite, hlength₁]
    rw [hlength₁]
    exact hroom
  refine ⟨t, _, hwrite, rfl, ht.wellformed, ?_, ?_, ?_, hcapacity.trans hcapacity₁,
    fun i x hx => ?_⟩
  · rw [ht.baseSize, addCapacity_baseSize, h.baseSize]
  · rw [ht.position, h.position]
  · show t.size = (overwrite f.bytes f.cursor (buf.map some)).length
    rw [ht.size, length_overwrite_eq_max hcursor, h.size, h.position, List.length_map]
  · replace hx : (overwrite f.bytes f.cursor (buf.map some))[i]? = some (some x) := hx
    rw [getElem?_overwrite hcursor, List.length_map] at hx
    rw [ht.content, h.position, getElem?_overwrite (by rw [hlength₁, ← h.position]; omega)]
    -- a byte that was written before stays where it was when the vector grows
    have hold : f.bytes[i]? = some (some x) →
        (s.addCapacity fill buf.length).content[i]? = some x := by
      intro hi
      have hs := h.written i x hi
      have hlt : i < s.content.length := (List.getElem?_eq_some_iff.mp hs).1
      rw [hcontent, List.getElem?_append_left hlt]
      exact hs
    split_ifs with hbefore hin
    · rw [if_pos hbefore] at hx
      exact hold hx
    · rw [if_neg hbefore, if_pos hin, List.getElem?_map, Option.map_eq_some_iff] at hx
      obtain ⟨y, hy, hyx⟩ := hx
      rw [hy, Option.some.inj hyx]
    · rw [if_neg hbefore, if_neg hin] at hx
      exact hold hx

theorem Refines.setPosition (h : Refines b s f) {v : ℕ} (hv : v ≤ f.capacity) :
    ∃ t f', s.setPosition v = .returns t () ∧ f.edit b (.setPosition v) = some f' ∧
      Refines b t f' := by
  obtain ⟨t, hset, ht⟩ :=
    h.wellformed.setPosition (show v ≤ s.capacity by rw [h.capacity]; exact hv)
  have hcapacity : t.capacity = f.capacity := by
    rw [← h.capacity, ← h.wellformed.length_content, ← ht.content, ht.wellformed.length_content]
  refine ⟨t, _, hset, if_neg (by omega), ht.wellformed, ht.baseSize.trans h.baseSize, ht.position,
    ?_, hcapacity, fun i x hx => ?_⟩
  · show t.size = (f.bytes ++ List.replicate (v - f.bytes.length) none).length
    rw [ht.size, h.size, List.length_append, List.length_replicate]
    omega
  · replace hx : (f.bytes ++ List.replicate (v - f.bytes.length) none)[i]? = some (some x) := hx
    rw [ht.content]
    rcases Nat.lt_or_ge i f.bytes.length with hlt | hge
    · rw [List.getElem?_append_left hlt] at hx
      exact h.written i x hx
    · -- a gap has not been written
      rw [List.getElem?_append_right hge] at hx
      have hmem := (List.mem_replicate.mp (List.mem_of_getElem? hx)).2
      cases hmem

theorem Refines.clear (h : Refines b s f) : Refines b s.clear (Flat.init b) := by
  have ht := h.wellformed.clear
  exact ⟨ht.wellformed, h.baseSize, rfl, rfl, h.baseSize, nofun⟩

/-- **Step lemma.** An edit throws exactly when it is out of range, and then changes nothing. -/
theorem Refines.edited (h : Refines b s f) (e : Edit) :
    ∃ t, s.edited fill e = some t ∧ Refines b t ((f.edit b e).getD f) := by
  cases e with
  | write buf =>
    obtain ⟨t, f', hwrite, hedit, ht⟩ := h.write fill buf
    refine ⟨t, ?_, ?_⟩
    · simp only [ByteArray.edited, edit, hwrite]
    · rw [hedit]
      exact ht
  | setPosition v =>
    rcases Nat.lt_or_ge f.capacity v with hlt | hge
    · have hthrows : s.setPosition v = .throws s :=
        setPosition_of_lt (by rw [h.capacity]; exact hlt)
      refine ⟨s, ?_, ?_⟩
      · simp only [ByteArray.edited, edit, hthrows]
      · rw [show f.edit b (.setPosition v) = none from if_pos hlt]
        exact h
    · obtain ⟨t, f', hset, hedit, ht⟩ := h.setPosition hge
      refine ⟨t, ?_, ?_⟩
      · simp only [ByteArray.edited, edit, hset]
      · rw [hedit]
        exact ht
  | clear => exact ⟨s.clear, rfl, h.clear⟩

theorem Refines.edits (h : Refines b s f) (es : List Edit) :
    ∃ t, Transition.run (ByteArray.edited fill) s es = some t ∧ Refines b t (f.edits b es) := by
  induction es generalizing s f with
  | nil => exact ⟨s, rfl, h⟩
  | cons e es ih =>
    obtain ⟨s₁, hedited, h₁⟩ := h.edited fill e
    obtain ⟨t, hrun, ht⟩ := ih h₁
    exact ⟨t, Transition.run_cons_eq_some.mpr ⟨s₁, hedited, hrun⟩, ht⟩

/-- Every sequence of edits of a fresh `ByteArray` goes through, and what shows afterwards is the
flat vector. -/
theorem shows_of_edits (hb : 1 ≤ b) (es : List Edit) :
    ∃ s, Transition.run (edited fill) (init fill b) es = some s ∧
      Shows s ((Flat.init b).edits b es) := by
  obtain ⟨s, hrun, hs⟩ := (refines_init fill hb).edits fill es
  exact ⟨s, hrun, hs.shows⟩

/-- A gap, an overwrite and a full block, with blocks of two bytes. -/
theorem shows_of_gap :
    1 ≤ 2 ∧ (Flat.init 2).edits 2 [.write [1, 2, 3], .setPosition 1, .write [7], .setPosition 4,
        .write [9], .setPosition 1] =
      { bytes := [some 1, some 7, some 3, none, some 9], cursor := 1, capacity := 6 } ∧
    ∃ s, Transition.run (ByteArray.edited fun _ _ => 0) (init (fun _ _ => 0) 2)
        [.write [1, 2, 3], .setPosition 1, .write [7], .setPosition 4, .write [9],
          .setPosition 1] = some s ∧
      Shows s ((Flat.init 2).edits 2 [.write [1, 2, 3], .setPosition 1, .write [7],
        .setPosition 4, .write [9], .setPosition 1]) :=
  ⟨by decide, by decide, shows_of_edits (fun _ _ => 0) (by decide) _⟩

end Muhui.ByteArray
