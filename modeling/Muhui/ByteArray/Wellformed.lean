/-
  The representation invariant of a `ByteArray` whose cursor has only been moved by `write`,
  `setPosition` and `clear`, and what these functions do to its content.

  `content` is the memory of all nodes in a row, written or not.  Each loop over the nodes is first
  followed over a list of blocks (`writeLoop_eq`, `seekLoop_eq`, `copyLoop_eq`).
-/
import Muhui.ByteArray.Basic

namespace Muhui.ByteArray

variable (fill : ℕ → ℕ → UInt8)

/-- The memory of the nodes, one after another. -/
def content (s : ByteArray) : List UInt8 := s.nodes.flatten

/-- The node of a position; there is none behind the last node. -/
def nodeAt (s : ByteArray) (p : ℕ) : Option ℕ :=
  if p = s.capacity then none else some (p / s.baseSize)

structure Wellformed (s : ByteArray) : Prop where
  base : 0 < s.baseSize
  uniform : Uniform s.baseSize s.nodes
  root : 0 < s.nodes.length
  capacity : s.capacity = s.baseSize * s.nodes.length
  size : s.size ≤ s.capacity
  position : s.position ≤ s.size
  cur : s.cur = s.nodeAt s.position

/-- `t` is wellformed with this content, position and size, and otherwise like `s`. -/
structure Becomes (s t : ByteArray) (content : List UInt8) (position size : ℕ) : Prop where
  wellformed : t.Wellformed
  content : t.content = content
  position : t.position = position
  size : t.size = size
  baseSize : t.baseSize = s.baseSize
  endian : t.endian = s.endian
  made : t.made = s.made

variable {s t t' : ByteArray} {b : ℕ} {chain : List Block} {buf : List UInt8}

theorem Wellformed.length_content (h : s.Wellformed) : s.content.length = s.capacity := by
  rw [content, h.uniform.length_flatten, h.capacity]

/-- A wellformed state is determined by what it holds. -/
theorem Becomes.unique {content : List UInt8} {position size : ℕ}
    (h : Becomes s t content position size) (h' : Becomes s t' content position size) :
    t = t' := by
  have hbase : t.baseSize = t'.baseSize := h.baseSize.trans h'.baseSize.symm
  have hnodes : t.nodes = t'.nodes := by
    refine Uniform.flatten_inj h.wellformed.base h.wellformed.uniform ?_
      (h.content.trans h'.content.symm)
    rw [hbase]
    exact h'.wellformed.uniform
  have hcapacity : t.capacity = t'.capacity := by
    rw [h.wellformed.capacity, h'.wellformed.capacity, hbase, hnodes]
  have hposition : t.position = t'.position := h.position.trans h'.position.symm
  have hcur : t.cur = t'.cur := by
    rw [h.wellformed.cur, h'.wellformed.cur, nodeAt, nodeAt, hposition, hcapacity, hbase]
  obtain ⟨⟩ := t
  obtain ⟨⟩ := t'
  simp only [ByteArray.mk.injEq]
  exact ⟨hbase, hposition, hcapacity, h.size.trans h'.size.symm, h.endian.trans h'.endian.symm,
    hnodes, hcur, h.made.trans h'.made.symm⟩

theorem Becomes.trans {content content' : List UInt8} {position size position' size' : ℕ}
    (h : Becomes s t content position size) (h' : Becomes t t' content' position' size') :
    Becomes s t' content' position' size' :=
  ⟨h'.wellformed, h'.content, h'.position, h'.size, h'.baseSize.trans h.baseSize,
    h'.endian.trans h.endian, h'.made.trans h.made⟩

/-! ### New nodes -/

theorem length_newNodes (b made count : ℕ) : (newNodes fill b made count).length = count := by
  rw [newNodes, List.length_map, List.length_range]

theorem uniform_newNodes (b made count : ℕ) : Uniform b (newNodes fill b made count) := by
  intro block hblock
  obtain ⟨i, -, rfl⟩ := List.mem_map.mp hblock
  rw [List.length_map, List.length_range]

theorem wellformed_init {base_size : ℕ} (h : 1 ≤ base_size) :
    (init fill base_size).Wellformed where
  base := h
  uniform := uniform_newNodes _ _ _ _
  root := Nat.one_pos
  capacity := (Nat.mul_one base_size).symm
  size := Nat.zero_le _
  position := le_rfl
  cur := by
    show some 0 = if 0 = base_size then none else some (0 / base_size)
    rw [if_neg (by omega), Nat.zero_div]

section addCapacity

variable (s) (n : ℕ)

@[simp] theorem addCapacity_position : (s.addCapacity fill n).position = s.position := by
  simp only [addCapacity]
  split_ifs <;> rfl

@[simp] theorem addCapacity_size : (s.addCapacity fill n).size = s.size := by
  simp only [addCapacity]
  split_ifs <;> rfl

@[simp] theorem addCapacity_baseSize : (s.addCapacity fill n).baseSize = s.baseSize := by
  simp only [addCapacity]
  split_ifs <;> rfl

@[simp] theorem addCapacity_endian : (s.addCapacity fill n).endian = s.endian := by
  simp only [addCapacity]
  split_ifs <;> rfl

end addCapacity

theorem getCapacity_eq (h : s.Wellformed) : s.getCapacity = s.capacity - s.position :=
  sub64_of_le (h.position.trans h.size)

theorem getReadSize_eq (h : s.Wellformed) : s.getReadSize = s.size - s.position :=
  sub64_of_le h.position

/-- The number of blocks of `b` bytes that hold `n` bytes. -/
def blocksFor (b n : ℕ) : ℕ := (n + (b - 1)) / b

theorem le_mul_blocksFor (hb : 0 < b) (n : ℕ) : n ≤ b * blocksFor b n := by
  have hmod := Nat.mod_lt (n + (b - 1)) hb
  have hdiv := Nat.div_add_mod (n + (b - 1)) b
  unfold blocksFor
  omega

theorem addCapacity_of_le (h : s.Wellformed) {n : ℕ} (hn : s.position + n ≤ s.capacity) :
    s.addCapacity fill n = s := by
  unfold addCapacity
  rw [getCapacity_eq h]
  by_cases hzero : n = 0
  · exact if_pos hzero
  · rw [if_neg hzero]
    exact if_pos (by omega)

theorem addCapacity_of_lt (h : s.Wellformed) {n : ℕ} (hn : s.capacity < s.position + n) :
    s.addCapacity fill n =
      { s with
        capacity := s.capacity + blocksFor s.baseSize (s.position + n - s.capacity) * s.baseSize
        nodes := s.nodes ++
          newNodes fill s.baseSize s.made (blocksFor s.baseSize (s.position + n - s.capacity))
        cur := some (s.position / s.baseSize)
        made := s.made + blocksFor s.baseSize (s.position + n - s.capacity) } := by
  have hle := h.position.trans h.size
  have hold : n - (s.capacity - s.position) = s.position + n - s.capacity := by omega
  -- `m_cur` is null exactly when there is no room at all, and then the first new node is next
  have hcur : (if s.capacity - s.position = 0 then some s.nodes.length else s.cur) =
      some (s.position / s.baseSize) := by
    split_ifs with hzero
    · have hposition : s.position = s.baseSize * s.nodes.length := by
        rw [← h.capacity]
        omega
      rw [hposition, Nat.mul_div_cancel_left _ h.base]
    · rw [h.cur, nodeAt, if_neg (by omega)]
  unfold addCapacity
  simp only [getCapacity_eq h]
  rw [if_neg (by omega), if_neg (by omega), hcur, hold]
  rfl

/-- `addCapacity` makes room for `n` bytes behind the cursor, and leaves the content before. -/
theorem Wellformed.addCapacity (h : s.Wellformed) (n : ℕ) :
    (s.addCapacity fill n).Wellformed ∧ s.position + n ≤ (s.addCapacity fill n).capacity ∧
      ∃ new, (s.addCapacity fill n).content = s.content ++ new := by
  rcases Nat.lt_or_ge s.capacity (s.position + n) with hlt | hge
  · have hroom := le_mul_blocksFor h.base (s.position + n - s.capacity)
    have hsize := h.size
    have hcapacity : s.capacity +
        blocksFor s.baseSize (s.position + n - s.capacity) * s.baseSize =
          s.baseSize * (s.nodes ++ newNodes fill s.baseSize s.made
            (blocksFor s.baseSize (s.position + n - s.capacity))).length := by
      rw [List.length_append, length_newNodes, h.capacity, Nat.mul_add, Nat.mul_comm s.baseSize
        (blocksFor _ _)]
    rw [addCapacity_of_lt fill h hlt]
    rw [Nat.mul_comm] at hroom
    refine ⟨⟨h.base, uniform_append.mpr ⟨h.uniform, uniform_newNodes _ _ _ _⟩, ?_, hcapacity, ?_,
      h.position, ?_⟩, ?_, _, List.flatten_append⟩
    · rw [List.length_append]
      exact Nat.add_pos_left h.root _
    · exact hsize.trans (Nat.le_add_right _ _)
    · refine (if_neg ?_).symm
      have hle := h.position.trans h.size
      show s.position ≠ s.capacity + _
      omega
    · show s.position + n ≤ s.capacity + _
      omega
  · rw [addCapacity_of_le fill h hge]
    exact ⟨h, hge, [], (List.append_nil _).symm⟩

/-! ### `write` -/

theorem nextNode_eq (c : ℕ) (rest : List Block) :
    nextNode c rest = if rest.length = 0 then none else some (c + 1) := by
  unfold nextNode
  cases rest <;> rfl

/-- The node that `m` bytes behind the beginning of the `n` nodes from node `c` on; behind the last
one there is none. -/
def nodeAfter (b n c m : ℕ) : Option ℕ := if m = b * n then none else some (c + m / b)

/-- In the first node, and at its end. -/
theorem nodeAfter_of_le (hb : 0 < b) {c m : ℕ} {rest : List Block} (hm : m ≤ b) :
    nodeAfter b (rest.length + 1) c m = if b = m then nextNode c rest else some c := by
  rw [nodeAfter, Nat.mul_add, Nat.mul_one, nextNode_eq]
  by_cases hfull : b = m
  · rw [if_pos hfull, ← hfull, Nat.div_self hb]
    by_cases hlast : rest.length = 0
    · rw [if_pos hlast, if_pos (by rw [hlast]; omega)]
    · have hpos := Nat.mul_pos hb (Nat.pos_of_ne_zero hlast)
      rw [if_neg hlast, if_neg (by omega)]
  · have hlt : m < b := by omega
    rw [if_neg hfull, if_neg (by omega), Nat.div_eq_of_lt hlt]
    rfl

/-- Behind the first node. -/
theorem nodeAfter_add (hb : 0 < b) (n c m : ℕ) :
    nodeAfter b (n + 1) c (b + m) = nodeAfter b n (c + 1) m := by
  have hend : m + b = b * n + b ↔ m = b * n := by omega
  have hnext : c + (m / b + 1) = c + 1 + m / b := by omega
  unfold nodeAfter
  rw [Nat.mul_add, Nat.mul_one, Nat.add_comm b m, Nat.add_div_right _ hb, hnext]
  simp only [hend]

/-- The loop of `write` writes over the blocks as over one list. -/
theorem writeLoop_eq (hb : 0 < b) {c npos position : ℕ} (hchain : Uniform b chain)
    (hnpos : npos < b) (hbuf : 0 < buf.length) (hroom : npos + buf.length ≤ b * chain.length) :
    ∃ chain', writeLoop chain c npos position buf =
        some (chain', nodeAfter b chain.length c (npos + buf.length), position + buf.length) ∧
      Uniform b chain' ∧ chain'.length = chain.length ∧
      chain'.flatten = overwrite chain.flatten npos buf := by
  induction chain generalizing c npos position buf with
  | nil =>
    rw [List.length_nil, Nat.mul_zero] at hroom
    omega
  | cons node rest ih =>
    obtain ⟨hnode, hrest⟩ := uniform_cons.mp hchain
    rw [List.length_cons, Nat.mul_add, Nat.mul_one] at hroom
    rw [writeLoop, List.length_cons, hnode]
    by_cases hfits : buf.length ≤ b - npos
    · -- all bytes go into this node
      have hin : npos + buf.length ≤ b := by omega
      have hlength : npos + buf.length ≤ node.length := by omega
      refine ⟨overwrite node npos buf :: rest, ?_, ?_, rfl, ?_⟩
      · rw [if_pos hfits, nodeAfter_of_le hb hin]
      · exact uniform_cons.mpr ⟨(length_overwrite hlength).trans hnode, hrest⟩
      · rw [List.flatten_cons, List.flatten_cons, overwrite_append_left hlength]
    · -- this node is filled up, and the others take the rest
      rw [if_neg hfits]
      have htake : (buf.take (b - npos)).length = node.length - npos := by
        rw [List.length_take, hnode]
        omega
      have hdrop : (buf.drop (b - npos)).length = buf.length - (b - npos) := List.length_drop
      obtain ⟨rest', hloop, huniform, hlength, hflatten⟩ :=
        @ih (buf.drop (b - npos)) (c + 1) 0 (position + (b - npos)) hrest hb (by omega) (by omega)
      have hsplit : npos + buf.length = b + (0 + (buf.drop (b - npos)).length) := by omega
      have hposition : position + (b - npos) + (buf.drop (b - npos)).length =
          position + buf.length := by
        omega
      refine ⟨overwrite node npos (buf.take (b - npos)) :: rest', ?_, ?_, ?_, ?_⟩
      · rw [hloop, Option.map_some, hposition, hsplit, nodeAfter_add hb]
      · refine uniform_cons.mpr ⟨?_, huniform⟩
        rw [length_overwrite (by omega), hnode]
      · rw [List.length_cons, hlength]
      · rw [List.flatten_cons, List.flatten_cons, hflatten,
          ← overwrite_append (by omega) htake, List.take_append_drop]

/-- A position before the end lies in one of the nodes. -/
theorem Wellformed.node (h : s.Wellformed) {p : ℕ} (hp : p < s.capacity) :
    p / s.baseSize < s.nodes.length ∧ s.baseSize * (p / s.baseSize) + p % s.baseSize = p ∧
      p % s.baseSize < s.baseSize ∧
      s.baseSize * (s.nodes.drop (p / s.baseSize)).length =
        s.capacity - s.baseSize * (p / s.baseSize) := by
  rw [h.capacity] at hp
  refine ⟨(Nat.div_lt_iff_lt_mul h.base).mpr (by rwa [Nat.mul_comm]), Nat.div_add_mod _ _,
    Nat.mod_lt _ h.base, ?_⟩
  rw [List.length_drop, Nat.mul_sub, h.capacity]

/-- The loops begin at the node of the cursor, and end at that of the new position. -/
theorem Wellformed.nodeAfter_drop (h : s.Wellformed) {p : ℕ} (hp : p < s.capacity) (n : ℕ) :
    nodeAfter s.baseSize (s.nodes.drop (p / s.baseSize)).length (p / s.baseSize)
      (p % s.baseSize + n) = s.nodeAt (p + n) := by
  obtain ⟨hc, hsplit, hmod, hrest⟩ := h.node hp
  have hend : p % s.baseSize + n = s.capacity - s.baseSize * (p / s.baseSize) ↔
      p + n = s.capacity := by
    omega
  have hquotient : p / s.baseSize + (p % s.baseSize + n) / s.baseSize = (p + n) / s.baseSize := by
    rw [← Nat.mul_add_div h.base, ← Nat.add_assoc, hsplit]
  unfold nodeAfter nodeAt
  rw [hrest, hquotient]
  simp only [hend]

theorem ite_lt_eq_max (m n : ℕ) : (if m < n then n else m) = max m n := by
  split_ifs with h
  · exact (max_eq_right h.le).symm
  · exact (max_eq_left (by omega)).symm

/-- `write` puts the bytes behind the cursor, over what is there. -/
theorem Wellformed.write (h : s.Wellformed) (buf : List UInt8) :
    ∃ t, s.write fill buf = .returns t () ∧
      Becomes (s.addCapacity fill buf.length) t
        (overwrite (s.addCapacity fill buf.length).content s.position buf)
        (s.position + buf.length) (max s.size (s.position + buf.length)) := by
  rcases Nat.eq_zero_or_pos buf.length with hzero | hpos
  · obtain rfl := List.length_eq_zero_iff.mp hzero
    have hsize : max s.size (s.position + 0) = s.size := max_eq_left h.position
    refine ⟨s, rfl, ?_⟩
    rw [show s.addCapacity fill ([] : List UInt8).length = s from rfl, overwrite_nil]
    exact ⟨h, rfl, rfl, hsize.symm, rfl, rfl, rfl⟩
  · obtain ⟨h₁, hroom, -⟩ := h.addCapacity fill buf.length
    have hposition₁ := addCapacity_position fill s buf.length
    have hsize₁ := addCapacity_size fill s buf.length
    unfold ByteArray.write
    rw [if_neg (by omega)]
    generalize s.addCapacity fill buf.length = s₁ at *
    rw [← hposition₁, ← hsize₁]
    rw [← hposition₁] at hroom
    obtain ⟨hc, hsplit, hmod, hrest⟩ := h₁.node (show s₁.position < s₁.capacity by omega)
    have hcur : s₁.cur = some (s₁.position / s₁.baseSize) := by
      rw [h₁.cur, nodeAt, if_neg (by omega)]
    -- the loop sees the nodes from that of the cursor on
    obtain ⟨chain, hloop, huniform, hlength, hflatten⟩ :=
      @writeLoop_eq _ _ buf h₁.base (s₁.position / s₁.baseSize) _ s₁.position
        (h₁.uniform.drop (s₁.position / s₁.baseSize)) hmod hpos (by omega)
    rw [h₁.nodeAfter_drop (by omega)] at hloop
    have hnodes : (s₁.nodes.take (s₁.position / s₁.baseSize) ++ chain).length =
        s₁.nodes.length := by
      rw [List.length_append, hlength, List.length_take, List.length_drop]
      omega
    simp only [hcur, hloop]
    refine ⟨_, rfl,
      ⟨h₁.base, uniform_append.mpr ⟨h₁.uniform.take _, huniform⟩, ?_, ?_, ?_, ?_, rfl⟩,
      ?_, rfl, ite_lt_eq_max _ _, rfl, rfl, rfl⟩
    · show 0 < (_ ++ chain).length
      rw [hnodes]
      exact h₁.root
    · show s₁.capacity = s₁.baseSize * (_ ++ chain).length
      rw [hnodes, h₁.capacity]
    · show (if _ then _ else _) ≤ s₁.capacity
      rw [ite_lt_eq_max]
      exact max_le h₁.size hroom
    · show s₁.position + buf.length ≤ if _ then _ else _
      rw [ite_lt_eq_max]
      exact le_max_right _ _
    · show (_ ++ chain).flatten = _
      rw [List.flatten_append, hflatten, h₁.uniform.overwrite_drop hc.le, hsplit]
      rfl

/-! ### `setPosition` and `clear` -/

/-- The loop of `setPosition` finds the node of the position. -/
theorem seekLoop_eq (hb : 0 < b) {c v : ℕ} (hchain : Uniform b chain) (hne : 0 < chain.length)
    (hv : v ≤ b * chain.length) : seekLoop chain c v = some (nodeAfter b chain.length c v) := by
  induction chain generalizing c v with
  | nil => exact absurd hne (lt_irrefl 0)
  | cons node rest ih =>
    obtain ⟨hnode, hrest⟩ := uniform_cons.mp hchain
    rw [List.length_cons, Nat.mul_add, Nat.mul_one] at hv
    rw [seekLoop, List.length_cons, hnode]
    by_cases hbehind : b < v
    -- the position lies behind this node, so there is a next one
    · have hlength : 0 < rest.length := by
        rcases Nat.eq_zero_or_pos rest.length with hzero | hpos
        · rw [hzero] at hv
          omega
        · exact hpos
      have hsplit : v = b + (v - b) := by omega
      rw [if_pos hbehind, ih hrest hlength (by omega)]
      conv_rhs => rw [hsplit, nodeAfter_add hb]
    · rw [if_neg hbehind, nodeAfter_of_le hb (by omega)]
      simp only [eq_comm]

/-- Up to the capacity, `setPosition` moves the cursor, and the size with it. -/
theorem Wellformed.setPosition (h : s.Wellformed) {v : ℕ} (hv : v ≤ s.capacity) :
    ∃ t, s.setPosition v = .returns t () ∧ Becomes s t s.content v (max s.size v) := by
  have hnode : nodeAfter s.baseSize s.nodes.length 0 v = s.nodeAt v := by
    rw [nodeAfter, nodeAt, ← h.capacity, Nat.zero_add]
  have hseek := @seekLoop_eq _ _ h.base 0 v h.uniform h.root (by rw [← h.capacity]; exact hv)
  rw [hnode] at hseek
  unfold ByteArray.setPosition
  rw [if_neg (by omega)]
  simp only [hseek]
  refine ⟨_, rfl, ⟨h.base, h.uniform, h.root, h.capacity, ?_, ?_, rfl⟩, rfl, rfl,
    ite_lt_eq_max _ _, rfl, rfl, rfl⟩
  · show (if _ then _ else _) ≤ s.capacity
    rw [ite_lt_eq_max]
    exact max_le h.size hv
  · show v ≤ if _ then _ else _
    rw [ite_lt_eq_max]
    exact le_max_right _ _

theorem setPosition_of_lt {v : ℕ} (hv : s.capacity < v) : s.setPosition v = .throws s := if_pos hv

/-- `clear` keeps the first node, with what is in it. -/
theorem Wellformed.clear (h : s.Wellformed) :
    Becomes s s.clear (s.content.take s.baseSize) 0 0 := by
  have hlength : (s.nodes.take 1).length = 1 := by
    rw [List.length_take]
    exact Nat.min_eq_left h.root
  refine ⟨⟨h.base, h.uniform.take 1, ?_, ?_, Nat.zero_le _, le_rfl, ?_⟩, ?_, rfl, rfl, rfl, rfl,
    rfl⟩
  · show 0 < (s.nodes.take 1).length
    rw [hlength]
    exact Nat.one_pos
  · show s.baseSize = s.baseSize * (s.nodes.take 1).length
    rw [hlength, Nat.mul_one]
  · have hbase := h.base
    show some 0 = if 0 = s.baseSize then none else some (0 / s.baseSize)
    rw [if_neg (by omega), Nat.zero_div]
  · have htake : (s.nodes.take 1).flatten.length = s.baseSize := by
      rw [h.uniform.flatten_take h.root, Nat.mul_one]
    show (s.nodes.take 1).flatten = s.nodes.flatten.take s.baseSize
    rw [flatten_eq_take_drop s.nodes 1, List.take_append_of_le_length htake.ge, ← htake,
      List.take_length]

/-! ### `read` at a position -/

/-- The loop of `read` at a position copies from the blocks as from one list, as far as they go. -/
theorem copyLoop_eq {npos n : ℕ} (hchain : Uniform b chain) (hnpos : npos < b) :
    copyLoop chain npos n =
      if n = 0 ∨ npos + n ≤ b * chain.length then some (slice chain.flatten npos n) else none := by
  induction chain generalizing npos n with
  | nil =>
    cases n with
    | zero => rfl
    | succ n =>
      rw [copyLoop, List.length_nil, if_neg (by omega)]
  | cons node rest ih =>
    obtain ⟨hnode, hrest⟩ := uniform_cons.mp hchain
    cases n with
    | zero =>
      rw [if_pos (.inl rfl)]
      rfl
    | succ n =>
      rw [copyLoop, List.length_cons, Nat.mul_add, Nat.mul_one, hnode, List.flatten_cons]
      -- either this node has all the bytes, or the copy goes on at the beginning of the next
      by_cases hfits : n + 1 ≤ b - npos
      · rw [if_pos hfits, if_pos (.inr (by omega)), slice_append_left (by omega)]
      · rw [if_neg hfits, ih hrest (by omega)]
        by_cases hroom : npos + (n + 1) ≤ b * rest.length + b
        · rw [if_pos (.inr (by omega)), if_pos (.inr hroom),
            slice_append (by omega) (by omega), hnode]
          rfl
        · rw [if_neg (by omega), if_neg (by omega)]
          rfl

/-- What `read` at a position returns: the bytes at the offset of the position, in the nodes from
that of the cursor on. -/
theorem readAt_eq (h : s.Wellformed) (size position : ℕ) :
    s.readAt size position =
      if sub64 s.size position < size then .throws s
      else if s.position = s.capacity then .faults
      else
        let k := s.baseSize * (s.position / s.baseSize) + position % s.baseSize
        if size = 0 ∨ k + size ≤ s.capacity then .returns s (slice s.content k size)
        else .faults := by
  unfold readAt
  by_cases hthrows : sub64 s.size position < size
  · rw [if_pos hthrows, if_pos hthrows]
  · rw [if_neg hthrows, if_neg hthrows, h.cur, nodeAt]
    by_cases hend : s.position = s.capacity
    · rw [if_pos hend, if_pos hend]
    · have hle := h.position.trans h.size
      obtain ⟨hc, hsplit, hmod, hrest⟩ := h.node (show s.position < s.capacity by omega)
      rw [if_neg hend, if_neg hend]
      simp only [copyLoop_eq (h.uniform.drop (s.position / s.baseSize))
        (Nat.mod_lt position h.base), hrest, h.uniform.slice_drop hc.le]
      by_cases hfits : size = 0 ∨ s.baseSize * (s.position / s.baseSize) +
          position % s.baseSize + size ≤ s.capacity
      · rw [if_pos hfits, if_pos (by omega)]
        rfl
      · rw [if_neg hfits, if_neg (by omega)]

/-- `toString` returns the bytes from the cursor to the size. -/
theorem toString_eq (h : s.Wellformed) :
    s.toString = .returns s (slice s.content s.position (s.size - s.position)) := by
  unfold toString
  rw [getReadSize_eq h]
  by_cases hzero : s.size - s.position = 0
  · rw [if_pos hzero, hzero, slice_zero]
  · have hsize := h.size
    have hle := Nat.div_add_mod s.position s.baseSize
    -- at the position of the cursor the two offsets agree
    rw [if_neg hzero, readAt_eq h, sub64_of_le h.position, if_neg (lt_irrefl _), if_neg (by omega)]
    simp only [hle]
    exact if_pos (.inr (by omega))

end Muhui.ByteArray
