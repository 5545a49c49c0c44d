/-
  `read(buf, size, position)`: the position is independent of the cursor in what is checked and in
  the offset, but the nodes are followed from that of the cursor on.
-/
import Muhui.ByteArray.Flat

namespace Muhui.ByteArray

/-- The bytes at the position are returned when they all lie before the size, and nothing else. -/
def ReadsAt (s : ByteArray) (size position : ℕ) : Prop :=
  s.readAt size position =
    if position + size ≤ s.size then .returns s (slice s.content position size) else .throws s

/-- The place of the bytes that are copied: the offset of the position, in the node of the
cursor. -/
def copiedFrom (s : ByteArray) (position : ℕ) : ℕ :=
  s.baseSize * (s.position / s.baseSize) + position % s.baseSize

/-- Where the bytes all lie before the size, the cursor is not at the end of the capacity, and the
bytes that are copied are the same; elsewhere, the position does not lie so far behind the size that
the difference wraps to at least the number of the bytes. -/
def SameBytes (s : ByteArray) (size position : ℕ) : Prop :=
  if position + size ≤ s.size then
    s.position < s.capacity ∧
      slice s.content (s.copiedFrom position) size = slice s.content position size
  else s.size < position → s.size + 2 ^ 64 - position < size

variable {s : ByteArray}

theorem Wellformed.readsAt_iff (h : s.Wellformed) (size position : ℕ) :
    ReadsAt s size position ↔ SameBytes s size position := by
  have hsize := h.size
  have hle := h.position.trans h.size
  have hlength := h.length_content
  unfold ReadsAt SameBytes
  rw [readAt_eq h]
  by_cases hin : position + size ≤ s.size
  · rw [if_pos hin, if_pos hin, sub64_of_le (show position ≤ s.size by omega), if_neg (by omega)]
    by_cases hend : s.position = s.capacity
    · -- the pointer to the current node is null
      rw [if_pos hend]
      exact iff_of_false nofun (fun hand => by omega)
    · rw [if_neg hend]
      show (if size = 0 ∨ s.copiedFrom position + size ≤ s.capacity then _ else _) = _ ↔ _
      by_cases hfits : size = 0 ∨ s.copiedFrom position + size ≤ s.capacity
      · rw [if_pos hfits]
        constructor
        · intro heq
          exact ⟨by omega, (Outcome.returns.inj heq).2⟩
        · rintro ⟨-, heq⟩
          exact congrArg (Outcome.returns s) heq
      · -- the nodes end before the bytes do
        rw [if_neg hfits]
        refine iff_of_false nofun ?_
        rintro ⟨-, heq⟩
        have hcopied : (slice s.content (s.copiedFrom position) size).length =
            min size (s.capacity - s.copiedFrom position) := by
          rw [slice, List.length_take, List.length_drop, hlength]
        have hasked : (slice s.content position size).length = size := length_slice (by omega)
        rw [heq, hasked] at hcopied
        omega
  -- something shall be thrown; the difference wraps when the position lies behind the size
  · rw [if_neg hin, if_neg hin]
    rcases Nat.lt_or_ge s.size position with hbehind | hbefore
    · have hwrap : sub64 s.size position = s.size + 2 ^ 64 - position := if_neg (by omega)
      rw [hwrap]
      by_cases hthrows : s.size + 2 ^ 64 - position < size
      · rw [if_pos hthrows]
        exact iff_of_true rfl fun _ => hthrows
      · rw [if_neg hthrows]
        refine iff_of_false (fun heq => ?_) (fun himp => hthrows (himp hbehind))
        simp only at heq
        split_ifs at heq
    · rw [sub64_of_le hbefore, if_pos (by omega)]
      exact iff_of_true rfl fun hlt => absurd hlt (by omega)

/-- For every state that edits lead to, and every size and position. -/
theorem readsAt_iff_sameBytes (fill : ℕ → ℕ → UInt8) {b : ℕ} (hb : 1 ≤ b) (es : List Edit) :
    ∃ s, Transition.run (edited fill) (init fill b) es = some s ∧
      ∀ size position, ReadsAt s size position ↔ SameBytes s size position := by
  obtain ⟨s, hrun, hs⟩ := (refines_init fill hb).edits fill es
  exact ⟨s, hrun, hs.wellformed.readsAt_iff⟩

/-- The third byte, which lies in the second block, is read while the cursor is in the first. -/
theorem readsAt_of_one_block :
    1 ≤ 2 ∧ ∃ s, Transition.run (edited fun _ _ => 0) (init (fun _ _ => 0) 2)
        [.write [1, 2, 3], .setPosition 0] = some s ∧
      ∀ size position, ReadsAt s size position ↔ SameBytes s size position :=
  ⟨by decide, readsAt_iff_sameBytes (fun _ _ => 0) (by decide) _⟩

/-- The third byte is asked for, and the first one is returned. -/
theorem not_readsAt_third :
    ∃ s, Transition.run (edited fun _ _ => 0) (init (fun _ _ => 0) 2)
        [.write [1, 2, 3], .setPosition 0] = some s ∧
      s.readAt 1 2 = .returns s [1] ∧ ¬ ReadsAt s 1 2 := by
  refine ⟨_, rfl, rfl, ?_⟩
  unfold ReadsAt
  decide

end Muhui.ByteArray
