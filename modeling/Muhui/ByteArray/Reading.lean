/-
  `read(buf, size)`, which moves the cursor.

  Where the bytes leave the block in whose middle they begin, the loop adds the offset in that block
  to the position, once too often (`Wellformed.read`).  The invariant survives the reads that do not
  (`Fits`).
-/
import Muhui.ByteArray.Wellformed

namespace Muhui.ByteArray

variable {s t : ByteArray} {b n : ℕ} {chain : List Block} {buf : List UInt8}

/-- The loop of `read` reads from the blocks as from one list. -/
theorem readLoop_eq (hb : 0 < b) {c npos position n : ℕ} (hchain : Uniform b chain)
    (hnpos : npos < b) (hn : 0 < n) (hroom : npos + n ≤ b * chain.length) :
    readLoop chain c npos position n =
      some (slice chain.flatten npos n, nodeAfter b chain.length c (npos + n),
        position + n + if npos + n ≤ b then 0 else npos) := by
  induction chain generalizing c npos position n with
  | nil =>
    rw [List.length_nil, Nat.mul_zero] at hroom
    omega
  | cons node rest ih =>
    obtain ⟨hnode, hrest⟩ := uniform_cons.mp hchain
    obtain ⟨n, rfl⟩ : ∃ m, n = m + 1 := ⟨n - 1, by omega⟩
    rw [List.length_cons, Nat.mul_add, Nat.mul_one] at hroom
    rw [readLoop, List.length_cons, List.flatten_cons, hnode]
    by_cases hfits : n + 1 ≤ b - npos
    · -- all bytes are in this node
      have hin : npos + (n + 1) ≤ b := by omega
      rw [if_pos hfits, nodeAfter_of_le hb hin, slice_append_left (by rw [hnode]; exact hin),
        if_pos hin]
      rfl
    · -- the rest of this node is read, and then the others from their beginning
      have hout : ¬npos + (n + 1) ≤ b := by omega
      have hsplit : npos + (n + 1) = b + (0 + (n + 1 - (b - npos))) := by omega
      have hposition : position + (b - npos) + npos + (n + 1 - (b - npos)) + 0 =
          position + (n + 1) + npos := by
        omega
      have hrange : slice (node ++ rest.flatten) npos (n + 1) =
          slice node npos (b - npos) ++ slice rest.flatten 0 (n + 1 - (b - npos)) := by
        rw [slice_append (by omega) (by omega), hnode]
      have hcur : nodeAfter b (rest.length + 1) c (npos + (n + 1)) =
          nodeAfter b rest.length (c + 1) (0 + (n + 1 - (b - npos))) := by
        rw [hsplit, nodeAfter_add hb]
      rw [if_neg hfits, ih hrest hb (by omega) (by omega), Option.map_some, ite_self, hposition,
        hrange, hcur, if_neg hout]

/-- What `read` does. -/
theorem Wellformed.read (h : s.Wellformed) (n : ℕ) :
    s.read n =
      if s.size < s.position + n then .throws s
      else if n = 0 then if s.position = s.capacity then .faults else .returns s []
      else .returns
        { s with
          cur := s.nodeAt (s.position + n)
          position := s.position + n +
            if s.position % s.baseSize + n ≤ s.baseSize then 0 else s.position % s.baseSize }
        (slice s.content s.position n) := by
  have hle := h.position
  have hsize := h.size
  unfold ByteArray.read
  rw [getReadSize_eq h, h.cur, nodeAt]
  by_cases hthrows : s.size < s.position + n
  · rw [if_pos (by omega), if_pos hthrows]
  · rw [if_neg (by omega), if_neg hthrows]
    by_cases hend : s.position = s.capacity
    · have hzero : n = 0 := by omega
      rw [if_pos hend, if_pos hzero, if_pos hend]
    · rw [if_neg hend]
      rcases Nat.eq_zero_or_pos n with rfl | hpos
      · -- nothing is read, and the cursor stays
        have hcur : s.cur = some (s.position / s.baseSize) := by
          rw [h.cur, nodeAt, if_neg hend]
        rw [if_pos rfl, if_neg hend]
        simp only [readLoop]
        rw [← hcur]
      -- the loop sees the nodes from that of the cursor on
      · obtain ⟨hc, hsplit, hmod, hrest⟩ := h.node (show s.position < s.capacity by omega)
        have hloop := @readLoop_eq _ _ h.base (s.position / s.baseSize) _ s.position n
          (h.uniform.drop (s.position / s.baseSize)) hmod hpos (by omega)
        rw [h.nodeAfter_drop (by omega), h.uniform.slice_drop hc.le, hsplit] at hloop
        rw [if_neg (by omega)]
        simp only [hloop]
        rfl

/-- The `n` bytes from position `p` on do not leave the block in whose middle they begin; where
there are none, there is at least a block. -/
def Fits (s : ByteArray) (p n : ℕ) : Prop :=
  if n = 0 then p < s.capacity else p % s.baseSize = 0 ∨ p % s.baseSize + n ≤ s.baseSize

instance (s : ByteArray) (p n : ℕ) : Decidable (s.Fits p n) := by
  unfold Fits
  infer_instance

/-- A read that fits moves the cursor over its bytes. -/
theorem Wellformed.read_of_fits (h : s.Wellformed) (hsize : s.position + n ≤ s.size)
    (hfits : s.Fits s.position n) :
    ∃ t, s.read n = .returns t (slice s.content s.position n) ∧
      Becomes s t s.content (s.position + n) s.size := by
  have hbase := h.base
  rw [h.read, if_neg (by omega)]
  by_cases hzero : n = 0
  · subst hzero
    rw [Fits, if_pos rfl] at hfits
    rw [if_pos rfl, if_neg (by omega)]
    exact ⟨s, rfl, h, rfl, rfl, rfl, rfl, rfl, rfl⟩
  · rw [Fits, if_neg hzero] at hfits
    -- the offset that is added once too often is zero, or is not added
    have hdrift : (if s.position % s.baseSize + n ≤ s.baseSize then 0
        else s.position % s.baseSize) = 0 := by
      split_ifs with hin
      · rfl
      · omega
    rw [if_neg hzero, hdrift, Nat.add_zero]
    exact ⟨_, rfl, ⟨h.base, h.uniform, h.root, h.capacity, h.size, hsize, rfl⟩,
      rfl, rfl, rfl, rfl, rfl, rfl⟩

/-! ### The position, in any state -/

theorem le_of_readLoop {c npos position : ℕ} {cur : Option ℕ} {position' : ℕ}
    (h : readLoop chain c npos position n = some (buf, cur, position')) :
    position + n ≤ position' := by
  induction chain generalizing c npos position n buf with
  | nil =>
    cases n with
    | zero =>
      have heq := Option.some.inj h
      simp only [Prod.mk.injEq] at heq
      omega
    | succ n => cases h
  | cons node rest ih =>
    cases n with
    | zero =>
      have heq := Option.some.inj h
      simp only [Prod.mk.injEq] at heq
      omega
    | succ n =>
      rw [readLoop] at h
      by_cases hfits : n + 1 ≤ node.length - npos
      · rw [if_pos hfits] at h
        have heq := Option.some.inj h
        simp only [Prod.mk.injEq] at heq
        omega
      · rw [if_neg hfits] at h
        obtain ⟨r, hr, heq⟩ := Option.map_eq_some_iff.mp h
        simp only [Prod.mk.injEq] at heq
        have hle := @ih _ r.1 _ _ _ (by rw [hr, ← heq.2])
        omega

theorem length_of_readLoop {c npos position : ℕ} {r : Option ℕ × ℕ}
    (h : readLoop chain c npos position n = some (buf, r)) : buf.length = n := by
  induction chain generalizing c npos position n buf with
  | nil =>
    cases n with
    | zero =>
      obtain ⟨rfl, -⟩ := Prod.mk.inj (Option.some.inj h)
      rfl
    | succ n => cases h
  | cons node rest ih =>
    cases n with
    | zero =>
      obtain ⟨rfl, -⟩ := Prod.mk.inj (Option.some.inj h)
      rfl
    | succ n =>
      rw [readLoop] at h
      by_cases hfits : n + 1 ≤ node.length - npos
      · rw [if_pos hfits] at h
        obtain ⟨rfl, -⟩ := Prod.mk.inj (Option.some.inj h)
        exact length_slice (by omega)
      · rw [if_neg hfits] at h
        obtain ⟨r', hr, heq⟩ := Option.map_eq_some_iff.mp h
        obtain ⟨rfl, rfl⟩ := Prod.mk.inj heq
        have hrest : r'.1.length = n + 1 - (node.length - npos) := ih hr
        rw [List.length_append, hrest, slice, List.length_take, List.length_drop]
        omega

theorem readLoop_of_read (h : s.read n = .returns t buf) :
    ∃ c cur, s.cur = some c ∧ t = { s with cur := cur, position := t.position } ∧
      readLoop (s.nodes.drop c) c (s.position % s.baseSize) s.position n =
        some (buf, cur, t.position) := by
  unfold ByteArray.read at h
  split_ifs at h
  cases hcur : s.cur with
  | none =>
    rw [hcur] at h
    cases h
  | some c =>
    rw [hcur] at h
    cases hloop : readLoop (s.nodes.drop c) c (s.position % s.baseSize) s.position n with
    | none =>
      simp only [hloop] at h
      cases h
    | some r =>
      simp only [hloop] at h
      obtain ⟨rfl, rfl⟩ := Outcome.returns.inj h
      exact ⟨c, r.2.1, rfl, rfl, hloop⟩

/-- Whatever the state, a read moves the cursor at least over its bytes. -/
theorem le_of_read (h : s.read n = .returns t buf) : s.position + n ≤ t.position := by
  obtain ⟨c, cur, -, -, hloop⟩ := readLoop_of_read h
  exact le_of_readLoop hloop

theorem length_of_read (h : s.read n = .returns t buf) : buf.length = n := by
  obtain ⟨c, cur, -, -, hloop⟩ := readLoop_of_read h
  exact length_of_readLoop hloop

end Muhui.ByteArray
