/-
  `ByteArray::writeToFile` and `ByteArray::readFromFile` (`bytearray.cc`).

  Positions and sizes are below `2 ^ 63` and fit an `int64_t`; the offset in a node and the count of
  a write are cut to an `int`.
-/
import Muhui.ByteArray.Codec
import Muhui.ByteArray.Vectors

namespace Muhui.ByteArray

/-- What an `int` keeps of a number. -/
def toInt (x : ℤ) : ℤ := x.bmod (2 ^ 32)

/-- A call `ofs.write(ptr, count)`, with the bytes at `ptr`; there are none where the count is
negative. -/
structure Chunk where
  count : ℤ
  bytes : List UInt8
  deriving DecidableEq

/-- The loop of `writeToFile` from some node on. -/
def writeFileLoop (b : ℕ) : List Block → ℤ → ℤ → Option (List Chunk)
  | [], _, read_size => if 0 < read_size then none else some []
  | node :: rest, pos, read_size =>
    if 0 < read_size then
      let diff := toInt ((if pos < 0 then pos + 2 ^ 64 else pos) % b)
      let len := toInt ((if b < read_size then (b : ℤ) else read_size) - diff)
      if 0 < len ∧ (diff < 0 ∨ node.length < diff + len) then none
      else
        (writeFileLoop b rest (pos + len) (read_size - len)).map fun chunks =>
          ⟨len, slice node diff.toNat len.toNat⟩ :: chunks
    else some []

/-- `writeToFile`, of which `opened` says whether the file could be opened. -/
def writeToFile (s : ByteArray) (opened : Bool) : Outcome (Bool × List Chunk) :=
  if opened then
    match writeFileLoop s.baseSize (s.cur.elim [] s.nodes.drop) s.position s.getReadSize with
    | none => .faults
    | some chunks => .returns s (true, chunks)
  else .returns s (false, [])

/-- What the calls `ifs.read(buff, b)` give until one of them meets the end of the file. -/
def fileReads (b : ℕ) (contents : List UInt8) : List (List UInt8) :=
  (List.range (contents.length / b + 1)).map fun i => slice contents (i * b) b

/-- One `write` after another. -/
def writes (fill : ℕ → ℕ → UInt8) (s : ByteArray) : List (List UInt8) → Outcome Unit
  | [] => .returns s ()
  | buf :: bufs => (s.write fill buf).bind fun s _ => writes fill s bufs

/-- `readFromFile`; `none` is a file that could not be opened. -/
def readFromFile (fill : ℕ → ℕ → UInt8) (s : ByteArray) : Option (List UInt8) → Outcome Bool
  | none => .returns s false
  | some contents => (s.writes fill (fileReads s.baseSize contents)).map fun _ => true

/-! ### Writing to a file -/

theorem toInt_eq {x : ℤ} (h : -2 ^ 31 ≤ x) (hx : x < 2 ^ 31) : toInt x = x := by
  unfold toInt Int.bmod
  norm_num at h hx ⊢
  omega

variable {b pos read_size : ℕ} {node : Block} {rest chain : List Block}

/-- A pass of the loop, where the numbers fit an `int`. -/
theorem writeFileLoop_cons (hdiff : pos % b < 2 ^ 31) (hmin : min b read_size < 2 ^ 31)
    (hpos : 0 < read_size) :
    writeFileLoop b (node :: rest) pos read_size =
      if pos % b < min b read_size ∧ node.length < min b read_size then none
      else
        (writeFileLoop b rest (pos + ((min b read_size : ℕ) - (pos % b : ℕ) : ℤ))
          (read_size - ((min b read_size : ℕ) - (pos % b : ℕ) : ℤ))).map fun chunks =>
            ⟨(min b read_size : ℕ) - (pos % b : ℕ), slice node (pos % b)
              (min b read_size - pos % b)⟩ :: chunks := by
  have hdiff' : toInt ((if (pos : ℤ) < 0 then (pos : ℤ) + 2 ^ 64 else (pos : ℤ)) % (b : ℤ)) =
      ((pos % b : ℕ) : ℤ) := by
    rw [if_neg (by omega), ← Int.natCast_mod, toInt_eq (by omega) (by omega)]
  have hmin' : (if (b : ℤ) < read_size then (b : ℤ) else read_size) = (min b read_size : ℕ) := by
    split_ifs <;> omega
  have hlen : toInt ((min b read_size : ℕ) - (pos % b : ℕ) : ℤ) =
      (min b read_size : ℕ) - (pos % b : ℕ) := toInt_eq (by omega) (by omega)
  have hcond : (0 < ((min b read_size : ℕ) - (pos % b : ℕ) : ℤ) ∧ (((pos % b : ℕ) : ℤ) < 0 ∨
      (node.length : ℤ) < (pos % b : ℕ) + ((min b read_size : ℕ) - (pos % b : ℕ)))) ↔
      pos % b < min b read_size ∧ node.length < min b read_size := by
    omega
  have htoNat : ((min b read_size : ℕ) - (pos % b : ℕ) : ℤ).toNat =
      min b read_size - pos % b := by
    omega
  rw [writeFileLoop, if_pos (by omega)]
  simp only [hdiff', hmin', hlen, hcond, htoNat, Int.toNat_natCast]

theorem writeFileLoop_zero (chain : List Block) (pos : ℤ) :
    writeFileLoop b chain pos 0 = some [] := by
  cases chain <;> rfl

/-- When the loop begins with a node, or reaches the end of the first one, it stays in its nodes and
writes all bytes. -/
theorem exists_writeFileLoop (hchain : Uniform b chain) (hb : 0 < b)
    (hint : min b read_size < 2 ^ 31) (hstart : pos % b = 0 ∨ b ≤ read_size ∨ read_size = 0)
    (hroom : read_size = 0 ∨ pos % b + read_size ≤ b * chain.length) :
    ∃ chunks, writeFileLoop b chain pos read_size = some chunks ∧
      (∀ chunk ∈ chunks, 0 ≤ chunk.count) ∧
      chunks.flatMap Chunk.bytes = slice chain.flatten (pos % b) read_size := by
  rcases Nat.eq_zero_or_pos read_size with rfl | hpos
  · exact ⟨[], writeFileLoop_zero chain pos, nofun, rfl⟩
  induction chain generalizing pos read_size with
  | nil =>
    rw [List.length_nil, Nat.mul_zero] at hroom
    omega
  | cons node rest ih =>
    obtain ⟨hnode, hrest⟩ := uniform_cons.mp hchain
    rw [List.length_cons, Nat.mul_add, Nat.mul_one] at hroom
    have hmod := Nat.mod_lt pos hb
    -- the bytes of this node
    obtain ⟨k, hk⟩ : ∃ k, k = min b read_size - pos % b := ⟨_, rfl⟩
    have hcount : ((min b read_size : ℕ) - (pos % b : ℕ) : ℤ) = (k : ℤ) := by omega
    rw [writeFileLoop_cons (by omega) hint hpos, if_neg (by omega), hcount, ← hk,
      List.flatten_cons]
    rcases Nat.lt_or_ge read_size b with hlast | hfull
    · have hall : ((read_size : ℤ) - (k : ℤ)) = 0 := by omega
      refine ⟨[⟨k, slice node (pos % b) k⟩], ?_, ?_, ?_⟩
      · rw [hall, writeFileLoop_zero]
        rfl
      · intro chunk hchunk
        rw [List.mem_singleton.mp hchunk]
        exact Int.natCast_nonneg k
      · have heq : k = read_size := by omega
        rw [heq, slice_append_left (by omega)]
        exact List.append_nil _
    · -- the node is written to its end, and the loop begins with the next one
      have hend : pos + k = b * (pos / b + 1) := by
        have hsplit := Nat.div_add_mod pos b
        rw [Nat.mul_add, Nat.mul_one]
        omega
      have hzero : (pos + k) % b = 0 := by rw [hend, Nat.mul_mod_right]
      have hcast : ((read_size - k : ℕ) : ℤ) = (read_size : ℤ) - (k : ℤ) := by omega
      have hnext : ∃ chunks, writeFileLoop b rest ((pos + k : ℕ) : ℤ) (read_size - k : ℕ) =
          some chunks ∧ (∀ chunk ∈ chunks, 0 ≤ chunk.count) ∧
            chunks.flatMap Chunk.bytes = slice rest.flatten ((pos + k) % b) (read_size - k) := by
        rcases Nat.eq_zero_or_pos (read_size - k) with hnone | hsome
        · rw [hnone]
          exact ⟨[], writeFileLoop_zero rest _, nofun, rfl⟩
        · exact ih hrest (by omega) (.inl hzero) (by omega) hsome
      obtain ⟨chunks, hloop, hcounts, hbytes⟩ := hnext
      refine ⟨⟨k, slice node (pos % b) k⟩ :: chunks, ?_, ?_, ?_⟩
      · rw [← Nat.cast_add, ← hcast, hloop]
        rfl
      · exact List.forall_mem_cons.mpr ⟨Int.natCast_nonneg k, hcounts⟩
      · have hfirst : node.length - pos % b = k := by omega
        rw [List.flatMap_cons, hbytes, hzero, slice_append (by omega) (by omega), hfirst]

/-- What is before the cursor in its node is subtracted from the length of the last chunk, too, so
that it is negative. -/
theorem exists_neg_of_writeFileLoop {chunks : List Chunk} (hint : b < 2 ^ 31) (hb : 0 < b)
    (hpos : 0 < read_size) (hle : read_size ≤ pos % b)
    (hloop : writeFileLoop b chain pos read_size = some chunks) :
    ∃ chunk ∈ chunks, chunk.count < 0 := by
  have hmod := Nat.mod_lt pos hb
  induction chain generalizing chunks with
  | nil =>
    rw [writeFileLoop, if_pos (by omega)] at hloop
    cases hloop
  | cons node rest ih =>
    have hmin : min b read_size = read_size := by omega
    rw [writeFileLoop_cons (by omega) (by omega) hpos, if_neg (by omega), hmin] at hloop
    obtain ⟨chunks', hrest, rfl⟩ := Option.map_eq_some_iff.mp hloop
    rcases Nat.lt_or_ge read_size (pos % b) with hlt | hge
    · refine ⟨_, List.mem_cons_self, ?_⟩
      show ((read_size : ℕ) - (pos % b : ℕ) : ℤ) < 0
      omega
    · -- nothing is written, and the loop goes on with the same numbers
      have hzero : ((read_size : ℤ) - (pos % b : ℕ)) = 0 := by omega
      rw [hzero, add_zero, sub_zero] at hrest
      obtain ⟨chunk, hchunk, hneg⟩ := ih hrest
      exact ⟨chunk, List.mem_cons_of_mem _ hchunk, hneg⟩

variable {s : ByteArray}

/-- At the end, or at the beginning of a block, or as far from the end as a block is long. -/
def Chunked (s : ByteArray) : Prop :=
  s.position = s.size ∨ s.position % s.baseSize = 0 ∨ s.baseSize ≤ s.size - s.position

/-- The loop of a wellformed state begins with the node of the cursor. -/
theorem Wellformed.writeToFile_eq (h : s.Wellformed) (hlt : s.position < s.size) :
    s.writeToFile true =
      match writeFileLoop s.baseSize (s.nodes.drop (s.position / s.baseSize)) s.position
        (s.size - s.position : ℕ) with
      | none => .faults
      | some chunks => .returns s (true, chunks) := by
  obtain ⟨-, -, -, hcur⟩ := h.current hlt
  rw [writeToFile, if_pos rfl, hcur, getReadSize_eq h]
  rfl

theorem Wellformed.writeToFile (h : s.Wellformed) (hchunked : s.Chunked)
    (hint : min s.baseSize (s.size - s.position) < 2 ^ 31) :
    ∃ chunks, s.writeToFile true = .returns s (true, chunks) ∧
      (∀ chunk ∈ chunks, 0 ≤ chunk.count) ∧
      chunks.flatMap Chunk.bytes = slice s.content s.position (s.size - s.position) := by
  have hsize := h.size
  rcases Nat.eq_or_lt_of_le h.position with hend | hlt
  · refine ⟨[], ?_, nofun, ?_⟩
    · rw [ByteArray.writeToFile, if_pos rfl, getReadSize_eq h, hend, Nat.sub_self]
      simp only [Nat.cast_zero, writeFileLoop_zero]
    · rw [hend, Nat.sub_self]
      rfl
  · obtain ⟨hc, hsplit, -, hrest⟩ := h.node (show s.position < s.capacity by omega)
    obtain ⟨chunks, hloop, hcounts, hbytes⟩ := exists_writeFileLoop
      (h.uniform.drop (s.position / s.baseSize)) h.base hint
      (show s.position % s.baseSize = 0 ∨ _ by unfold Chunked at hchunked; omega) (by omega)
    rw [h.uniform.slice_drop hc.le, hsplit] at hbytes
    refine ⟨chunks, ?_, hcounts, hbytes⟩
    rw [h.writeToFile_eq hlt, hloop]

/-- In any other place of the cursor, the last chunk goes wrong. -/
theorem Wellformed.chunked_of_writeToFile (h : s.Wellformed) (hint : s.baseSize < 2 ^ 31)
    {chunks : List Chunk} (hwrite : s.writeToFile true = .returns s (true, chunks))
    (hcounts : ∀ chunk ∈ chunks, 0 ≤ chunk.count) : s.Chunked := by
  by_contra hnot
  have hle := h.position
  have hb := h.base
  obtain ⟨hend, hmiddle, hshort⟩ : s.position ≠ s.size ∧ s.position % s.baseSize ≠ 0 ∧
      s.size - s.position < s.baseSize := by
    unfold Chunked at hnot
    omega
  have hmod := Nat.mod_lt s.position hb
  obtain ⟨hc, hsplit, -, -⟩ := h.node (show s.position < s.capacity by have := h.size; omega)
  rw [h.writeToFile_eq (by omega)] at hwrite
  cases hloop : writeFileLoop s.baseSize (s.nodes.drop (s.position / s.baseSize)) s.position
      (s.size - s.position : ℕ) with
  | none =>
    rw [hloop] at hwrite
    cases hwrite
  | some chunks' =>
    rw [hloop] at hwrite
    obtain ⟨-, hchunks⟩ := Outcome.returns.inj hwrite
    obtain rfl := (Prod.mk.inj hchunks).2
    obtain ⟨chunk, hchunk, hneg⟩ : ∃ chunk ∈ chunks', chunk.count < 0 := by
      rcases Nat.lt_or_ge (s.position % s.baseSize) (s.size - s.position) with hlt | hge
      · -- the first chunk ends where the offset equals the size, which is more than is left
        have hmin : min s.baseSize (s.size - s.position) = s.size - s.position := by omega
        rw [List.drop_eq_getElem_cons hc, writeFileLoop_cons (by omega) (by omega) (by omega),
          hmin] at hloop
        split_ifs at hloop
        obtain ⟨chunks, hrest, rfl⟩ := Option.map_eq_some_iff.mp hloop
        have hposition : (s.position : ℤ) + ((s.size - s.position : ℕ) -
            (s.position % s.baseSize : ℕ)) =
              ((s.baseSize * (s.position / s.baseSize) + (s.size - s.position) : ℕ) : ℤ) := by
          omega
        have hleft : ((s.size - s.position : ℕ) : ℤ) - ((s.size - s.position : ℕ) -
            (s.position % s.baseSize : ℕ)) = (s.position % s.baseSize : ℕ) := by
          omega
        rw [hposition, hleft] at hrest
        have hoffset : (s.baseSize * (s.position / s.baseSize) + (s.size - s.position)) %
            s.baseSize = s.size - s.position := by
          rw [Nat.mul_add_mod, Nat.mod_eq_of_lt hshort]
        obtain ⟨chunk, hchunk, hneg⟩ := exists_neg_of_writeFileLoop hint hb (by omega)
          (by rw [hoffset]; omega) hrest
        exact ⟨chunk, List.mem_cons_of_mem _ hchunk, hneg⟩
      · exact exists_neg_of_writeFileLoop hint hb (by omega) hge hloop
    have hnonneg := hcounts chunk hchunk
    omega

end Muhui.ByteArray
