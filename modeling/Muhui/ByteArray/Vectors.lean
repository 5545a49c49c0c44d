/-
  `getReadBuffers` and `getWriteBuffers`: the parts of the nodes that are handed to the kernel.

  The two `getReadBuffers` have an `if` where they would need a loop, so they hand out one part of
  one node.  `getWriteBuffers` goes over the nodes for the lengths, but takes every address from the
  node of the cursor.
-/
import Muhui.ByteArray.Flat

namespace Muhui.ByteArray

/-! ### Parts of nodes -/

/-- The part lies in a node. -/
def Inside (s : ByteArray) (iov : Iovec) : Prop :=
  iov.node < s.nodes.length ∧ iov.offset + iov.len ≤ s.baseSize

/-- The bytes of the part. -/
def fetch (s : ByteArray) (iov : Iovec) : List UInt8 :=
  slice (s.nodes[iov.node]?.getD []) iov.offset iov.len

/-- The parts have no byte in common. -/
def Iovec.Disjoint (x y : Iovec) : Prop :=
  x.node ≠ y.node ∨ x.offset + x.len ≤ y.offset ∨ y.offset + y.len ≤ x.offset

/-- Writing through a part. -/
def store (s : ByteArray) (iov : Iovec) (buf : List UInt8) : ByteArray :=
  { s with nodes := s.nodes.modify iov.node (overwrite · iov.offset buf) }

/-- Writing through the parts in order. -/
def scatter : ByteArray → List Iovec → List UInt8 → ByteArray
  | s, [], _ => s
  | s, iov :: iovs, buf => scatter (s.store iov (buf.take iov.len)) iovs (buf.drop iov.len)

/-! ### `getReadBuffers` -/

/-- The call describes the `n` bytes from `start` on, and changes nothing. -/
def Describes (s : ByteArray) (start n : ℕ) (r : Outcome (ℕ × List Iovec)) : Prop :=
  ∃ iovs, r = .returns s (n, iovs) ∧ (iovs.map s.fetch).flatten = slice s.content start n ∧
    (iovs.map Iovec.len).sum = n ∧ ∀ iov ∈ iovs, s.Inside iov

variable {s t : ByteArray} {n m c npos : ℕ} {block : Block}

theorem describes_nil {start : ℕ} : Describes s start n (.returns s (0, [])) ↔ n = 0 := by
  constructor
  · rintro ⟨iovs, heq, -, -, -⟩
    exact (congrArg Prod.fst (Outcome.returns.inj heq).2).symm
  · rintro rfl
    exact ⟨[], rfl, rfl, rfl, nofun⟩

/-- The one part that is handed out is all that is asked for only when it fits into its node. -/
theorem Wellformed.describes_readVector (h : s.Wellformed) (hc : s.nodes[c]? = some block)
    (hnpos : npos < s.baseSize) :
    Describes s (s.baseSize * c + npos) n (s.readVector c npos (s.baseSize - npos) m) ↔
      n = m ∧ npos + m ≤ s.baseSize := by
  obtain ⟨hlt, -⟩ := List.getElem?_eq_some_iff.mp hc
  unfold readVector
  split_ifs with hfits hnext
  · constructor
    · rintro ⟨iovs, heq, -, -, -⟩
      exact ⟨(congrArg Prod.fst (Outcome.returns.inj heq).2).symm, by omega⟩
    · rintro ⟨rfl, hroom⟩
      refine ⟨_, rfl, ?_, ?_, ?_⟩
      -- the bytes of one node are a range of the content
      · show (s.fetch ⟨c, npos, n⟩ ++ []) = _
        rw [List.append_nil, fetch, hc]
        exact (h.uniform.slice_block hc hroom).symm
      · show n + 0 = n
        exact Nat.add_zero n
      · intro iov hiov
        rw [List.mem_singleton.mp hiov]
        exact ⟨hlt, hroom⟩
  · -- the return value counts the bytes that did not fit, too
    refine iff_of_false ?_ (fun hand => hfits (by omega))
    rintro ⟨iovs, heq, -, hsum, -⟩
    obtain ⟨hn, hiovs⟩ := Prod.mk.inj (Outcome.returns.inj heq).2
    rw [← hiovs, ← hn] at hsum
    replace hsum : s.baseSize - npos + 0 = m := hsum
    omega
  -- behind the last node a null pointer is followed
  · exact iff_of_false (fun ⟨_, heq, _⟩ => nomatch heq) (fun hand => hfits (by omega))

theorem ite_gt_eq_min (m n : ℕ) : (if m < n then m else n) = min n m := by
  split_ifs with h
  · exact (min_eq_right h.le).symm
  · exact (min_eq_left (by omega)).symm

/-- Before the size, the pointer to the current node is that of the position. -/
theorem Wellformed.current (h : s.Wellformed) (hlt : s.position < s.size) :
    ∃ block, s.nodes[s.position / s.baseSize]? = some block ∧ block.length = s.baseSize ∧
      s.cur = some (s.position / s.baseSize) := by
  have hsize := h.size
  obtain ⟨hc, -⟩ := h.node (show s.position < s.capacity by omega)
  refine ⟨_, List.getElem?_eq_getElem hc, h.uniform _ (List.getElem_mem hc), ?_⟩
  rw [h.cur, nodeAt, if_neg (by omega)]

/-- What `getReadBuffers` hands out: the bytes up to the end of the node of the cursor. -/
theorem Wellformed.getReadBuffers (h : s.Wellformed) (len : ℕ) :
    ∃ iovs, s.getReadBuffers len = .returns s (min len (s.size - s.position), iovs) ∧
      (iovs.map s.fetch).flatten = slice s.content s.position
        (min (min len (s.size - s.position)) (s.baseSize - s.position % s.baseSize)) := by
  unfold ByteArray.getReadBuffers
  rw [getReadSize_eq h, ite_gt_eq_min]
  by_cases hzero : min len (s.size - s.position) = 0
  · rw [if_pos hzero, hzero, Nat.zero_min]
    exact ⟨[], rfl, rfl⟩
  · have hsize := h.size
    obtain ⟨block, hblock, hlength, hcur⟩ := h.current (show s.position < s.size by omega)
    obtain ⟨hc, hsplit, hmod, -⟩ := h.node (show s.position < s.capacity by omega)
    rw [if_neg hzero, hcur, Option.bind_some, hblock, Option.map_some]
    -- one part of the node of the cursor is fetched as a range of the content
    have hfetch (n : ℕ) (hn : s.position % s.baseSize + n ≤ s.baseSize) :
        (([(⟨s.position / s.baseSize, s.position % s.baseSize, n⟩ : Iovec)]).map s.fetch).flatten =
          slice s.content s.position n := by
      show s.fetch _ ++ [] = _
      rw [List.append_nil, fetch, hblock]
      have hslice := h.uniform.slice_block hblock hn
      rw [hsplit] at hslice
      exact hslice.symm
    unfold readVector
    simp only [hlength]
    split_ifs with hfits hnext
    · refine ⟨_, rfl, ?_⟩
      rw [Nat.min_eq_left hfits]
      exact hfetch _ (by omega)
    · refine ⟨_, rfl, ?_⟩
      rw [Nat.min_eq_right (by omega)]
      exact hfetch _ (by omega)
    · -- the bytes that do not fit in this node are in the next one
      have hle := Nat.mul_le_mul_left s.baseSize (Nat.le_of_not_lt hnext)
      rw [← h.capacity, Nat.mul_add, Nat.mul_one] at hle
      omega

/-- The buffers from the cursor on are right exactly when they lie in the node of the cursor. -/
theorem Wellformed.describes_getReadBuffers (h : s.Wellformed) (len : ℕ) :
    Describes s s.position (min len (s.size - s.position)) (s.getReadBuffers len) ↔
      min len (s.size - s.position) = 0 ∨
        s.position % s.baseSize + min len (s.size - s.position) ≤ s.baseSize := by
  unfold ByteArray.getReadBuffers
  rw [getReadSize_eq h, ite_gt_eq_min]
  by_cases hzero : min len (s.size - s.position) = 0
  · simp only [hzero, if_true, describes_nil, true_or]
  · obtain ⟨block, hblock, hlength, hcur⟩ := h.current (show s.position < s.size by omega)
    have hdescribes := h.describes_readVector (n := min len (s.size - s.position))
      (m := min len (s.size - s.position)) hblock (Nat.mod_lt s.position h.base)
    rw [Nat.div_add_mod] at hdescribes
    simp only [hcur, Option.bind_some, hblock, Option.map_some, hlength]
    rw [if_neg hzero, hdescribes]
    constructor
    · exact fun hand => .inr hand.2
    · exact fun hor => ⟨rfl, hor.resolve_left hzero⟩

/-- The buffers from a position on are right exactly when they lie in one node and there are as many
readable bytes behind the cursor as behind the position. -/
theorem Wellformed.describes_getReadBuffersAt (h : s.Wellformed) (len : ℕ) {p : ℕ}
    (hp : p ≤ s.size) :
    Describes s p (min len (s.size - p)) (s.getReadBuffersAt len p) ↔
      min len (s.size - p) = min len (s.size - s.position) ∧
        (min len (s.size - p) = 0 ∨ p % s.baseSize + min len (s.size - p) ≤ s.baseSize) := by
  have hsize := h.size
  unfold getReadBuffersAt
  rw [getReadSize_eq h, ite_gt_eq_min]
  by_cases hzero : min len (s.size - s.position) = 0
  · simp only [hzero, if_true, describes_nil]
    constructor
    · exact fun hn => ⟨hn, .inl hn⟩
    · exact And.left
  · obtain ⟨block, hblock, hlength, hcur⟩ := h.current (show s.position < s.size by omega)
    simp only [if_neg hzero, hcur, Option.bind_some, hblock, hlength]
    by_cases hcount : p / s.baseSize < s.nodes.length
    · have hdescribes := h.describes_readVector (n := min len (s.size - p))
        (m := min len (s.size - s.position)) (List.getElem?_eq_getElem hcount)
        (Nat.mod_lt p h.base)
      rw [Nat.div_add_mod] at hdescribes
      rw [if_pos hcount, hdescribes]
      refine and_congr_right fun heq => ?_
      rw [← heq]
      constructor
      · exact .inr
      · exact fun hor => hor.resolve_left (by omega)
    · -- the position is the end of the capacity, so there is nothing behind it
      rw [if_neg hcount]
      refine iff_of_false (fun ⟨_, heq, _⟩ => nomatch heq) (fun hand => ?_)
      have hend : ¬ p < s.capacity := fun hlt => hcount (h.node hlt).1
      omega

/-- For every state that edits lead to, with both overloads. -/
theorem describes_iff (fill : ℕ → ℕ → UInt8) {b : ℕ} (hb : 1 ≤ b) (es : List Edit) :
    ∃ s, Transition.run (edited fill) (init fill b) es = some s ∧ ∀ len,
      (Describes s s.position (min len (s.size - s.position)) (s.getReadBuffers len) ↔
        min len (s.size - s.position) = 0 ∨
          s.position % b + min len (s.size - s.position) ≤ b) ∧
      ∀ p ≤ s.size, Describes s p (min len (s.size - p)) (s.getReadBuffersAt len p) ↔
        min len (s.size - p) = min len (s.size - s.position) ∧
          (min len (s.size - p) = 0 ∨ p % b + min len (s.size - p) ≤ b) := by
  obtain ⟨s, hrun, hs⟩ := (refines_init fill hb).edits fill es
  refine ⟨s, hrun, fun len => ?_⟩
  rw [← hs.baseSize]
  exact ⟨hs.wellformed.describes_getReadBuffers len,
    fun p hp => hs.wellformed.describes_getReadBuffersAt len hp⟩

/-- Two of three bytes lie in the first block. -/
theorem describes_of_one_block :
    1 ≤ 2 ∧ ∃ s, Transition.run (edited fun _ _ => 0) (init (fun _ _ => 0) 2)
        [.write [1, 2, 3], .setPosition 0] = some s ∧ ∀ len,
      (Describes s s.position (min len (s.size - s.position)) (s.getReadBuffers len) ↔
        min len (s.size - s.position) = 0 ∨
          s.position % 2 + min len (s.size - s.position) ≤ 2) ∧
      ∀ p ≤ s.size, Describes s p (min len (s.size - p)) (s.getReadBuffersAt len p) ↔
        min len (s.size - p) = min len (s.size - s.position) ∧
          (min len (s.size - p) = 0 ∨ p % 2 + min len (s.size - p) ≤ 2) :=
  ⟨by decide, describes_iff (fun _ _ => 0) (by decide) _⟩

/-- Three bytes are asked for and reported, and two are described. -/
theorem not_describes_three :
    ∃ s, Transition.run (edited fun _ _ => 0) (init (fun _ _ => 0) 2)
        [.write [1, 2, 3], .setPosition 0] = some s ∧
      s.getReadBuffers 3 = .returns s (3, [⟨0, 0, 2⟩]) ∧
      ¬ Describes s 0 3 (s.getReadBuffers 3) := by
  refine ⟨_, rfl, rfl, ?_⟩
  rintro ⟨iovs, heq, -, hsum, -⟩
  obtain ⟨-, hiovs⟩ := Prod.mk.inj (Outcome.returns.inj heq).2
  rw [← hiovs] at hsum
  revert hsum
  decide

/-! ### `getWriteBuffers` -/

/-- The buffers are disjoint parts of nodes, with `len` bytes in all; cursor and size are as before;
and whatever is written through the buffers, the cursor being moved behind it, `write` would have
written. -/
def FillsLike (fill : ℕ → ℕ → UInt8) (s : ByteArray) (len : ℕ) : Prop :=
  ∃ s₁ iovs, s.getWriteBuffers fill len = .returns s₁ (len, iovs) ∧
    iovs.Pairwise Iovec.Disjoint ∧ (∀ iov ∈ iovs, s₁.Inside iov) ∧
    (iovs.map Iovec.len).sum = len ∧ s₁.position = s.position ∧ s₁.size = s.size ∧
    ∀ buf, buf.length = len →
      (s₁.scatter iovs buf).setPosition (s₁.position + len) = s.write fill buf

variable {iov : Iovec} {iovs : List Iovec} {buf : List UInt8}

/-- Writing through a part of a node is writing at its place. -/
theorem Wellformed.store (h : s.Wellformed) (hiov : s.Inside iov) (hbuf : buf.length ≤ iov.len) :
    Becomes s (s.store iov buf)
      (overwrite s.content (s.baseSize * iov.node + iov.offset) buf) s.position s.size := by
  have hroom : iov.offset + buf.length ≤ s.baseSize := by
    have := hiov.2
    omega
  have hnodes : (s.store iov buf).nodes.length = s.nodes.length := List.length_modify ..
  refine ⟨⟨h.base, h.uniform.modify hroom iov.node, ?_, ?_, h.size, h.position, h.cur⟩,
    h.uniform.flatten_modify hiov.1 hroom, rfl, rfl, rfl, rfl, rfl⟩
  · rw [hnodes]
    exact h.root
  · show s.capacity = s.baseSize * (s.store iov buf).nodes.length
    rw [hnodes, h.capacity]

/-- All parts lie in node `c`. -/
theorem mem_writeVectors {chain : List Block} {b c npos len : ℕ} (hchain : Uniform b chain)
    (hnpos : npos ≤ b) (hvectors : writeVectors c chain npos len = some iovs) :
    ∀ iov ∈ iovs, iov.node = c ∧ iov.offset + iov.len ≤ b := by
  induction chain generalizing npos len iovs with
  | nil =>
    cases len with
    | zero =>
      obtain rfl := Option.some.inj hvectors
      nofun
    | succ len => cases hvectors
  | cons node rest ih =>
    obtain ⟨hnode, hrest⟩ := uniform_cons.mp hchain
    cases len with
    | zero =>
      obtain rfl := Option.some.inj hvectors
      nofun
    | succ len =>
      rw [writeVectors, hnode] at hvectors
      split_ifs at hvectors with hfits
      · obtain rfl := Option.some.inj hvectors
        intro iov hiov
        rw [List.mem_singleton.mp hiov]
        exact ⟨rfl, show npos + (len + 1) ≤ b by omega⟩
      · obtain ⟨iovs', hvectors', rfl⟩ := Option.map_eq_some_iff.mp hvectors
        intro iov hiov
        rcases List.mem_cons.mp hiov with rfl | hiov
        · exact ⟨rfl, show npos + (b - npos) ≤ b by omega⟩
        · exact ih hrest (Nat.zero_le b) hvectors' iov hiov

/-- What is written through parts of node `c` does not reach the nodes behind it. -/
theorem Wellformed.scatter (h : s.Wellformed) (hc : c < s.nodes.length)
    (hiovs : ∀ iov ∈ iovs, iov.node = c ∧ iov.offset + iov.len ≤ s.baseSize) :
    Becomes s (s.scatter iovs buf) (s.scatter iovs buf).content s.position s.size ∧
      (s.scatter iovs buf).content.length = s.content.length ∧
      ∀ i, s.baseSize * (c + 1) ≤ i → (s.scatter iovs buf).content[i]? = s.content[i]? := by
  induction iovs generalizing s buf with
  | nil => exact ⟨⟨h, rfl, rfl, rfl, rfl, rfl, rfl⟩, rfl, fun _ _ => rfl⟩
  | cons iov iovs ih =>
    rw [List.forall_mem_cons] at hiovs
    obtain ⟨⟨hnode, hroom⟩, hrest⟩ := hiovs
    -- the first part keeps the invariant, and ends where node `c` ends at the latest
    have htake : (buf.take iov.len).length ≤ iov.len := List.length_take_le ..
    have hstore := h.store ⟨by rw [hnode]; exact hc, hroom⟩ htake
    have hnodes : (s.store iov (buf.take iov.len)).nodes.length = s.nodes.length :=
      List.length_modify ..
    obtain ⟨hbecomes, hlength, hbehind⟩ :=
      @ih _ (buf.drop iov.len) hstore.wellformed (by rw [hnodes]; exact hc)
        (by rw [hstore.baseSize]; exact hrest)
    have hlast : s.baseSize * c + iov.offset + (buf.take iov.len).length ≤
        s.baseSize * (c + 1) := by
      rw [Nat.mul_add, Nat.mul_one]
      omega
    have hcontent : s.baseSize * (c + 1) ≤ s.content.length := by
      rw [h.length_content, h.capacity]
      exact Nat.mul_le_mul_left _ hc
    refine ⟨⟨hbecomes.wellformed, rfl, hbecomes.position, hbecomes.size, hbecomes.baseSize,
      hbecomes.endian, hbecomes.made⟩, ?_, fun i hi => ?_⟩
    · show ((s.store iov _).scatter iovs _).content.length = _
      rw [hlength, hstore.content, hnode, length_overwrite (by omega)]
    · show ((s.store iov _).scatter iovs _).content[i]? = _
      rw [hbehind i (by rw [hstore.baseSize]; exact hi), hstore.content, hnode,
        getElem?_overwrite (by omega), if_neg (by omega), if_neg (by omega)]

theorem exists_writeVectors {chain : List Block} {b npos len : ℕ} (hchain : Uniform b chain)
    (hroom : npos + len ≤ b * chain.length) :
    ∃ iovs, writeVectors c chain npos len = some iovs := by
  induction chain generalizing npos len with
  | nil =>
    rw [List.length_nil, Nat.mul_zero] at hroom
    obtain rfl : len = 0 := by omega
    exact ⟨[], rfl⟩
  | cons node rest ih =>
    obtain ⟨hnode, hrest⟩ := uniform_cons.mp hchain
    rw [List.length_cons, Nat.mul_add, Nat.mul_one] at hroom
    cases len with
    | zero => exact ⟨[], rfl⟩
    | succ len =>
      rw [writeVectors, hnode]
      split_ifs with hfits
      · exact ⟨_, rfl⟩
      · obtain ⟨iovs, hiovs⟩ := ih hrest
          (show 0 + (len + 1 - (b - npos)) ≤ b * rest.length by omega)
        exact ⟨_, by rw [hiovs, Option.map_some]⟩

/-- What `getWriteBuffers` returns, in the state that has room for the bytes. -/
theorem Wellformed.getWriteBuffers (fill : ℕ → ℕ → UInt8) (h : s.Wellformed) {len : ℕ}
    (hlen : 1 ≤ len) :
    ∃ iovs, s.getWriteBuffers fill len = .returns (s.addCapacity fill len) (len, iovs) ∧
      (∀ iov ∈ iovs, iov.node = s.position / s.baseSize ∧ iov.offset + iov.len ≤ s.baseSize) ∧
      (s.position % s.baseSize + len ≤ s.baseSize →
        iovs = [⟨s.position / s.baseSize, s.position % s.baseSize, len⟩]) := by
  obtain ⟨h₁, hroom, -⟩ := h.addCapacity fill len
  have hposition₁ := addCapacity_position fill s len
  have hbase₁ := addCapacity_baseSize fill s len
  unfold ByteArray.getWriteBuffers
  rw [if_neg (by omega)]
  generalize s.addCapacity fill len = s₁ at *
  rw [← hposition₁, ← hbase₁]
  rw [← hposition₁] at hroom
  -- there is room now, so the pointer to the current node is not null
  obtain ⟨hc, hsplit, hmod, hrest⟩ := h₁.node (show s₁.position < s₁.capacity by omega)
  have hcur : s₁.cur = some (s₁.position / s₁.baseSize) := by
    rw [h₁.cur, nodeAt, if_neg (by omega)]
  have hchain := h₁.uniform.drop (s₁.position / s₁.baseSize)
  obtain ⟨iovs, hvectors⟩ := exists_writeVectors (c := s₁.position / s₁.baseSize) hchain
    (show s₁.position % s₁.baseSize + len ≤ _ by omega)
  refine ⟨iovs, ?_, mem_writeVectors hchain hmod.le hvectors, fun hfits => ?_⟩
  · simp only [hcur, hvectors]
  · obtain ⟨k, rfl⟩ := Nat.exists_eq_add_of_le' hlen
    rw [List.drop_eq_getElem_cons hc] at hvectors hchain
    rw [writeVectors, (uniform_cons.mp hchain).1, if_pos (by omega)] at hvectors
    exact (Option.some.inj hvectors).symm

/-- Where the bytes do not fit in the node of the cursor, the byte behind it stays as it is. -/
theorem Wellformed.le_of_fillsLike (fill : ℕ → ℕ → UInt8) (h : s.Wellformed) {len : ℕ}
    (hlen : 1 ≤ len) (hfills : FillsLike fill s len) :
    s.position % s.baseSize + len ≤ s.baseSize := by
  obtain ⟨iovs, hcall, hnode, -⟩ := h.getWriteBuffers fill hlen
  obtain ⟨h₁, hroom, -⟩ := h.addCapacity fill len
  have hposition₁ := addCapacity_position fill s len
  have hbase₁ := addCapacity_baseSize fill s len
  have hlength₁ := h₁.length_content
  obtain ⟨hc, hsplit, hmod, -⟩ :=
    h₁.node (show s.position < (s.addCapacity fill len).capacity by omega)
  rw [hbase₁] at hc hsplit hmod
  obtain ⟨s₁, iovs', hcall', -, -, -, -, -, hwrite⟩ := hfills
  by_contra hcross
  rw [hcall] at hcall'
  obtain ⟨hs₁, hiovs⟩ := Outcome.returns.inj hcall'
  obtain rfl := hs₁
  obtain rfl := (Prod.mk.inj hiovs).2
  have hnext : s.baseSize * (s.position / s.baseSize + 1) <
      (s.addCapacity fill len).content.length := by
    rw [hlength₁, Nat.mul_add, Nat.mul_one]
    omega
  -- what is written is a byte that differs from the one that is there
  obtain ⟨old, hold⟩ : ∃ old, (s.addCapacity fill len).content[s.baseSize *
      (s.position / s.baseSize + 1)]? = some old := ⟨_, List.getElem?_eq_getElem hnext⟩
  obtain ⟨x, hx⟩ : ∃ x : UInt8, x ≠ old := by
    by_cases hzero : old = 0
    · exact ⟨1, by rw [hzero]; decide⟩
    · exact ⟨0, fun heq => hzero heq.symm⟩
  have hbuf : (List.replicate len x).length = len := List.length_replicate
  obtain ⟨t, ht, hbecomes⟩ := h.write fill (List.replicate len x)
  -- the buffers lie in the node of the cursor, so they miss that byte; `write` does not
  obtain ⟨hscatter, hsame, hbehind⟩ :=
    @Wellformed.scatter _ _ iovs (List.replicate len x) h₁ hc (by rw [hbase₁]; exact hnode)
  obtain ⟨t', ht', hbecomes'⟩ := hscatter.wellformed.setPosition
    (show (s.addCapacity fill len).position + len ≤ _ by
      rw [← hscatter.wellformed.length_content, hsame, hlength₁, hposition₁]
      exact hroom)
  have hstates := hwrite _ hbuf
  rw [ht, ht'] at hstates
  have hwritten : t.content[s.baseSize * (s.position / s.baseSize + 1)]? = some x := by
    have hin : s.baseSize * (s.position / s.baseSize + 1) - s.position < len := by
      rw [Nat.mul_add, Nat.mul_one]
      omega
    rw [hbecomes.content, hbuf, getElem?_overwrite (by rw [hlength₁]; omega), hbuf]
    rw [if_neg, if_pos, List.getElem?_replicate, if_pos hin]
    · omega
    · rw [Nat.mul_add, Nat.mul_one]
      omega
  rw [← (Outcome.returns.inj hstates).1, hbecomes'.content, hbehind _ (by rw [hbase₁]),
    hold] at hwritten
  exact hx (Option.some.inj hwritten).symm

/-- Where they fit, there is one buffer, and it is the place that `write` writes to. -/
theorem Wellformed.fillsLike_of_le (fill : ℕ → ℕ → UInt8) (h : s.Wellformed) {len : ℕ}
    (hlen : 1 ≤ len) (hfits : s.position % s.baseSize + len ≤ s.baseSize) :
    FillsLike fill s len := by
  obtain ⟨iovs, hcall, -, hsingle⟩ := h.getWriteBuffers fill hlen
  obtain ⟨h₁, hroom, -⟩ := h.addCapacity fill len
  have hposition₁ := addCapacity_position fill s len
  have hsize₁ := addCapacity_size fill s len
  have hbase₁ := addCapacity_baseSize fill s len
  obtain ⟨hc, hsplit, hmod, -⟩ :=
    h₁.node (show s.position < (s.addCapacity fill len).capacity by omega)
  rw [hbase₁] at hc hsplit hmod
  obtain rfl := hsingle hfits
  have hinside : (s.addCapacity fill len).Inside
      ⟨s.position / s.baseSize, s.position % s.baseSize, len⟩ :=
    ⟨hc, by rw [hbase₁]; exact hfits⟩
  refine ⟨_, _, hcall, List.pairwise_singleton _ _, ?_, rfl, hposition₁, hsize₁,
    fun buf hbuf => ?_⟩
  · intro iov hiov
    rw [List.mem_singleton.mp hiov]
    exact hinside
  -- storing through the buffer and `setPosition` leave what `write` leaves
  · have hstore := h₁.store hinside hbuf.le
    rw [hbase₁, hsplit] at hstore
    obtain ⟨t, ht, hbecomes⟩ := h.write fill buf
    obtain ⟨t', ht', hbecomes'⟩ := hstore.wellformed.setPosition
      (show (s.addCapacity fill len).position + len ≤ _ by
        rw [hposition₁]
        exact hroom)
    have hscatter : (s.addCapacity fill len).scatter
        [⟨s.position / s.baseSize, s.position % s.baseSize, len⟩] buf =
          (s.addCapacity fill len).store
            ⟨s.position / s.baseSize, s.position % s.baseSize, len⟩ buf := by
      show ByteArray.store _ _ (buf.take len) = _
      rw [List.take_of_length_le hbuf.le]
    rw [hscatter, ht', ht]
    -- both states hold the same
    have hlike := hstore.trans hbecomes'
    rw [hstore.content, hstore.size, hposition₁, hsize₁] at hlike
    rw [hbuf] at hbecomes
    rw [hlike.unique hbecomes]

/-- For every state that edits lead to, and every number of bytes. -/
theorem fillsLike_iff_one_node (fill : ℕ → ℕ → UInt8) {b : ℕ} (hb : 1 ≤ b) (es : List Edit) :
    ∃ s, Transition.run (edited fill) (init fill b) es = some s ∧
      ∀ len, 1 ≤ len → (FillsLike fill s len ↔ s.position % b + len ≤ b) := by
  obtain ⟨s, hrun, hs⟩ := (refines_init fill hb).edits fill es
  refine ⟨s, hrun, fun len hlen => ?_⟩
  rw [← hs.baseSize]
  exact ⟨hs.wellformed.le_of_fillsLike fill hlen, hs.wellformed.fillsLike_of_le fill hlen⟩

/-- Two bytes from the second place of a block on. -/
theorem fillsLike_of_second_place :
    1 ≤ 4 ∧ ∃ s, Transition.run (edited fun _ _ => 0) (init (fun _ _ => 0) 4)
        [.write [1]] = some s ∧
      ∀ len, 1 ≤ len → (FillsLike (fun _ _ => 0) s len ↔ s.position % 4 + len ≤ 4) :=
  ⟨by decide, fillsLike_iff_one_node (fun _ _ => 0) (by decide) _⟩

/-- Three bytes over two blocks: both buffers point into the first block. -/
theorem not_fillsLike_three :
    ∃ s, Transition.run (edited fun _ _ => 0) (init (fun _ _ => 0) 2) [] = some s ∧
      ¬ FillsLike (fun _ _ => 0) s 3 := by
  refine ⟨_, rfl, ?_⟩
  rintro ⟨s₁, iovs, hcall, hdisjoint, -⟩
  obtain ⟨-, hiovs⟩ := Prod.mk.inj (Outcome.returns.inj hcall).2
  rw [← hiovs] at hdisjoint
  have hpair := List.rel_of_pairwise_cons hdisjoint (List.mem_singleton_self _)
  revert hpair
  unfold Iovec.Disjoint
  decide

end Muhui.ByteArray
