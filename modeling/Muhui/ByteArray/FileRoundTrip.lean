/-
  A `ByteArray` is written to a file, and the file is read into another one.

  `readFromFile` takes whatever the file holds, in pieces of its own block size.  `writeToFile`
  subtracts the offset of the cursor in its block from the length of every chunk: from the last one
  it must not, unless the offset is zero (`chunked_of_writeToFile`).
-/
import Muhui.ByteArray.File
import Muhui.ByteArray.RoundTrip

namespace Muhui.ByteArray

/-- The file holds the bytes from the cursor to the size, no count is negative and the state stays
as it is; read into a fresh `ByteArray` of any block size, the file gives the same string. -/
def FileRoundTrips (s : ByteArray) : Prop :=
  ∃ chunks, s.writeToFile true = .returns s (true, chunks) ∧
    (∀ chunk ∈ chunks, 0 ≤ chunk.count) ∧
    chunks.flatMap Chunk.bytes = slice s.content s.position (s.size - s.position) ∧
    ∀ (fill : ℕ → ℕ → UInt8) (base_size : ℕ), 1 ≤ base_size → ∃ t t' str,
      (init fill base_size).readFromFile fill (some (chunks.flatMap Chunk.bytes)) =
        .returns t true ∧
      t.setPosition 0 = .returns t' () ∧ s.toString = .returns s str ∧
      t'.toString = .returns t' str

variable {s : ByteArray} {b : ℕ} {bs contents : List UInt8} (fill : ℕ → ℕ → UInt8)

/-! ### Reading from a file -/

/-- The pieces up to piece `n`. -/
theorem flatten_pieces (b : ℕ) (contents : List UInt8) (n : ℕ) :
    ((List.range n).map fun i => slice contents (i * b) b).flatten = contents.take (n * b) := by
  induction n with
  | zero => simp
  | succ n ih =>
    have hsplit := slice_add contents 0 (n * b) b
    rw [Nat.zero_add, ← Nat.succ_mul] at hsplit
    rw [List.range_succ, List.map_append, List.flatten_append, ih, List.map_singleton,
      List.flatten_singleton]
    exact hsplit.symm

/-- The last piece is cut by the end of the file, and may be empty. -/
theorem flatten_fileReads (hb : 0 < b) (contents : List UInt8) :
    (fileReads b contents).flatten = contents := by
  rw [fileReads, flatten_pieces]
  apply List.take_of_length_le
  have hdiv := Nat.div_add_mod contents.length b
  have hmod := Nat.mod_lt contents.length hb
  rw [Nat.add_mul, Nat.one_mul, Nat.mul_comm]
  omega

theorem Holds.writes (h : Holds s bs) (bufs : List (List UInt8)) :
    ∃ t, s.writes fill bufs = .returns t () ∧ Holds t (bs ++ bufs.flatten) := by
  induction bufs generalizing s bs with
  | nil =>
    refine ⟨s, rfl, ?_⟩
    rwa [List.flatten_nil, List.append_nil]
  | cons buf bufs ih =>
    obtain ⟨s₁, hwrite, h₁, -, -⟩ := h.write fill buf
    obtain ⟨t, hwrites, ht⟩ := ih h₁
    refine ⟨t, ?_, ?_⟩
    · rw [ByteArray.writes, hwrite]
      exact hwrites
    · rwa [List.flatten_cons, ← List.append_assoc]

/-- A fresh `ByteArray` holds what the file does. -/
theorem readFromFile_init {base_size : ℕ} (hb : 1 ≤ base_size) (contents : List UInt8) :
    ∃ t t', (init fill base_size).readFromFile fill (some contents) = .returns t true ∧
      t.setPosition 0 = .returns t' () ∧ t'.toString = .returns t' contents := by
  obtain ⟨t, hwrites, ht⟩ := (holds_init fill hb false).writes fill (fileReads base_size contents)
  rw [flatten_fileReads hb, List.nil_append] at ht
  obtain ⟨t', hset, ht'⟩ := ht.wellformed.setPosition (Nat.zero_le t.capacity)
  refine ⟨t, t', ?_, hset, ?_⟩
  · show ((init fill base_size).writes fill (fileReads base_size contents)).map _ = _
    rw [show init fill base_size = (init fill base_size).setIsLittleEndian false from rfl, hwrites]
    rfl
  · rw [toString_eq ht'.wellformed, ht'.content, ht'.position, ht'.size, ht.size]
    have hsize : max contents.length 0 - 0 = contents.length := by omega
    rw [hsize, ht.stored]

/-! ### Round trips -/

theorem Wellformed.fileRoundTrips (h : s.Wellformed) (hchunked : s.Chunked)
    (hint : min s.baseSize (s.size - s.position) < 2 ^ 31) : FileRoundTrips s := by
  obtain ⟨chunks, hwrite, hcounts, hbytes⟩ := h.writeToFile hchunked hint
  refine ⟨chunks, hwrite, hcounts, hbytes, fun fill base_size hb => ?_⟩
  obtain ⟨t, t', hread, hset, hstring⟩ := readFromFile_init fill hb (chunks.flatMap Chunk.bytes)
  refine ⟨t, t', _, hread, hset, toString_eq h, ?_⟩
  rw [hstring, hbytes]

/-- For every state that edits lead to. -/
theorem fileRoundTrips_iff_chunked (hb : 1 ≤ b) (es : List Edit) :
    ∃ s, Transition.run (edited fill) (init fill b) es = some s ∧
      (min b (s.size - s.position) < 2 ^ 31 → s.Chunked → FileRoundTrips s) ∧
      (b < 2 ^ 31 → (FileRoundTrips s ↔ s.Chunked)) := by
  obtain ⟨s, hrun, hs⟩ := (refines_init fill hb).edits fill es
  have h := hs.wellformed
  refine ⟨s, hrun, ?_⟩
  rw [← hs.baseSize]
  refine ⟨fun hint hchunked => h.fileRoundTrips hchunked hint, fun hint => ?_⟩
  constructor
  · rintro ⟨chunks, hwrite, hcounts, -⟩
    exact h.chunked_of_writeToFile hint hwrite hcounts
  · intro hchunked
    exact h.fileRoundTrips hchunked (by omega)

/-- Two blocks and a half, from the beginning of the second one on. -/
theorem fileRoundTrips_of_second_block :
    1 ≤ 2 ∧ ∃ s, Transition.run (edited fun _ _ => 0) (init (fun _ _ => 0) 2)
        [.write [1, 2, 3, 4, 5], .setPosition 2] = some s ∧
      (min 2 (s.size - s.position) < 2 ^ 31 → s.Chunked → FileRoundTrips s) ∧
      (2 < 2 ^ 31 → (FileRoundTrips s ↔ s.Chunked)) :=
  ⟨by decide, fileRoundTrips_iff_chunked (fun _ _ => 0) (by decide) _⟩

/-- Four bytes in one block, from the third on: a length of zero, and then a null pointer. -/
theorem not_fileRoundTrips_third :
    ∃ s, Transition.run (edited fun _ _ => 0) (init (fun _ _ => 0) 4)
        [.write [1, 2, 3, 4], .setPosition 2] = some s ∧
      s.writeToFile true = .faults ∧ ¬ FileRoundTrips s := by
  refine ⟨_, rfl, rfl, ?_⟩
  rintro ⟨chunks, hwrite, -⟩
  cases hwrite

end Muhui.ByteArray
