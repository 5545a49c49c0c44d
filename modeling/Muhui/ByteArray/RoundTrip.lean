/-
  A stream of typed values is written to a fresh `ByteArray` and read back from its beginning.

  The bytes are all found again; what may go wrong is the cursor.  Where a word begins inside a
  block and runs out of it, the cursor is moved too far, and it stays ahead of what has been read,
  whatever is read from then on (`roundTrips_iff_aligned`).
-/
import Muhui.ByteArray.Typed

namespace Muhui.ByteArray

/-- The number of bytes that the values take. -/
def lengthAll (ts : List Typed) : ℕ := (ts.map Typed.length).sum

/-- The bytes of the values, one after another. -/
def bytesAll (byteOrder endian : Endian) (ts : List Typed) : List UInt8 :=
  ts.flatMap (Typed.bytes byteOrder endian)

/-- The values are written to a fresh `ByteArray`, and the matching reads from position 0 on return
them, leave nothing, and end behind the bytes that have been written. -/
def RoundTrips (P : Platform) (base_size : ℕ) (little : Bool) (ts : List Typed) : Prop :=
  ∃ s s₁ s₂, ((init P.fill base_size).setIsLittleEndian little).writeAll P ts = .returns s () ∧
    s.setPosition 0 = .returns s₁ () ∧
    s₁.readAll P (ts.map Typed.kind) = .returns s₂ ts ∧
    s₂.getReadSize = 0 ∧ s₂.position = lengthAll ts

/-- No word of the values, from position `o` on, leaves the block in whose middle it begins. -/
def Aligned (b : ℕ) : ℕ → List Typed → Prop
  | _, [] => True
  | o, t :: ts => t.Aligned b o ∧ Aligned b (o + t.length) ts

variable {P : Platform} {s t : ByteArray} {ts : List Typed} {bs : List UInt8}

theorem lengthAll_cons (v : Typed) (ts : List Typed) :
    lengthAll (v :: ts) = v.length + lengthAll ts := by
  rw [lengthAll, List.map_cons, List.sum_cons]
  rfl

theorem length_bytesAll (byteOrder endian : Endian) (ts : List Typed) :
    (bytesAll byteOrder endian ts).length = lengthAll ts := by
  induction ts with
  | nil => rfl
  | cons v ts ih =>
    rw [lengthAll_cons, ← ih, ← length_bytes byteOrder endian v, bytesAll, List.flatMap_cons,
      List.length_append]
    rfl

/-! ### Writing -/

/-- The bytes that have been written from the beginning to the cursor, which is at the end. -/
structure Holds (s : ByteArray) (bs : List UInt8) : Prop where
  wellformed : s.Wellformed
  position : s.position = bs.length
  size : s.size = bs.length
  stored : slice s.content 0 bs.length = bs

theorem holds_init (fill : ℕ → ℕ → UInt8) {base_size : ℕ} (hb : 1 ≤ base_size) (little : Bool) :
    Holds ((init fill base_size).setIsLittleEndian little) [] := by
  have h := wellformed_init fill hb
  exact ⟨⟨h.base, h.uniform, h.root, h.capacity, h.size, h.position, h.cur⟩, rfl, rfl, rfl⟩

theorem Holds.write (fill : ℕ → ℕ → UInt8) (h : Holds s bs) (buf : List UInt8) :
    ∃ t, s.write fill buf = .returns t () ∧ Holds t (bs ++ buf) ∧
      t.baseSize = s.baseSize ∧ t.endian = s.endian := by
  obtain ⟨t, hwrite, ht⟩ := h.wellformed.write fill buf
  obtain ⟨h₁, hroom, new, hcontent⟩ := h.wellformed.addCapacity fill buf.length
  have hlength := h₁.length_content
  have hle := h.position
  refine ⟨t, hwrite, ⟨ht.wellformed, ?_, ?_, ?_⟩, ?_, ?_⟩
  · rw [ht.position, h.position, List.length_append]
  · rw [ht.size, h.size, h.position, List.length_append]
    omega
  -- the room that is made lies behind the bytes, and the write begins behind them
  · have hbefore : slice (s.addCapacity fill buf.length).content 0 bs.length = bs := by
      have hsize := h.wellformed.size
      rw [hcontent, slice_append_left, h.stored]
      rw [h.wellformed.length_content, ← h.size]
      omega
    rw [List.length_append, slice_add, ht.content, Nat.zero_add, h.position,
      slice_overwrite_before (by omega), slice_overwrite (by omega), hbefore]
  · rw [ht.baseSize, addCapacity_baseSize]
  · rw [ht.endian, addCapacity_endian]

theorem Holds.writeAll (h : Holds s bs) (ts : List Typed) :
    ∃ t, s.writeAll P ts = .returns t () ∧ Holds t (bs ++ bytesAll P.byteOrder s.endian ts) ∧
      t.baseSize = s.baseSize ∧ t.endian = s.endian := by
  induction ts generalizing s bs with
  | nil =>
    refine ⟨s, rfl, ?_, rfl, rfl⟩
    rwa [bytesAll, List.flatMap_nil, List.append_nil]
  | cons v ts ih =>
    obtain ⟨s₁, hwrite, h₁, hbase, hendian⟩ := h.write P.fill (v.bytes P.byteOrder s.endian)
    obtain ⟨t, hall, ht, hbase', hendian'⟩ := ih h₁
    refine ⟨t, ?_, ?_, hbase'.trans hbase, hendian'.trans hendian⟩
    · rw [ByteArray.writeAll, writeTyped_eq_write, hwrite]
      exact hall
    · rwa [hendian, List.append_assoc] at ht

/-! ### Reading -/

theorem le_of_readAll (h : s.readAll P (ts.map Typed.kind) = .returns t ts) :
    s.position + lengthAll ts ≤ t.position := by
  induction ts generalizing s with
  | nil =>
    obtain ⟨rfl, -⟩ := Outcome.returns.inj h
    exact le_rfl
  | cons v ts ih =>
    obtain ⟨s₁, v', hread, h⟩ := bind_eq_returns.mp h
    obtain ⟨ts', hall, heq⟩ := map_eq_returns.mp h
    obtain ⟨rfl, rfl⟩ := List.cons.inj heq
    have hle := le_of_readTyped hread
    have hle' := ih hall
    rw [lengthAll_cons]
    omega

/-- The bytes of a stream are those of its first value and those of the others. -/
theorem slice_bytesAll {v : Typed} {p : ℕ} {e : Endian}
    (hlength : p + lengthAll (v :: ts) ≤ s.content.length)
    (hbytes : slice s.content p (lengthAll (v :: ts)) = bytesAll P.byteOrder e (v :: ts)) :
    slice s.content p v.length = v.bytes P.byteOrder e ∧
      slice s.content (p + v.length) (lengthAll ts) = bytesAll P.byteOrder e ts := by
  rw [lengthAll_cons] at hlength hbytes
  rw [slice_add, bytesAll, List.flatMap_cons] at hbytes
  apply List.append_inj hbytes
  rw [length_slice (by omega), length_bytes]

theorem Wellformed.readAll (h : s.Wellformed) (hsize : s.position + lengthAll ts ≤ s.size)
    (hbytes : slice s.content s.position (lengthAll ts) = bytesAll P.byteOrder s.endian ts)
    (haligned : Aligned s.baseSize s.position ts) :
    ∃ t, s.readAll P (ts.map Typed.kind) = .returns t ts ∧
      Becomes s t s.content (s.position + lengthAll ts) s.size := by
  induction ts generalizing s with
  | nil => exact ⟨s, rfl, h, rfl, rfl, rfl, rfl, rfl, rfl⟩
  | cons v ts ih =>
    have hcontent := h.length_content
    have hcapacity := h.size
    obtain ⟨hfirst, hrest⟩ := slice_bytesAll (by omega) hbytes
    rw [lengthAll_cons] at hsize ⊢
    obtain ⟨s₁, hread, h₁⟩ := h.readTyped (by omega) hfirst haligned.1
    obtain ⟨t, hall, ht⟩ := @ih s₁ h₁.wellformed (by rw [h₁.position, h₁.size]; omega)
      (by rw [h₁.content, h₁.position, h₁.endian]; exact hrest)
      (by rw [h₁.baseSize, h₁.position]; exact haligned.2)
    -- the others are read in the state that the first read leaves
    refine ⟨t, ?_, ?_⟩
    · show (s.readTyped P v.kind).bind _ = _
      rw [hread]
      show (s₁.readAll P (ts.map Typed.kind)).map _ = _
      rw [hall]
      rfl
    · rw [← Nat.add_assoc, ← h₁.position, ← h₁.content, ← h₁.size]
      exact h₁.trans ht

/-- The reads end behind the bytes of the stream only if every word fits. -/
theorem Wellformed.aligned_of_readAll (h : s.Wellformed)
    (hsize : s.position + lengthAll ts ≤ s.size)
    (hbytes : slice s.content s.position (lengthAll ts) = bytesAll P.byteOrder s.endian ts)
    (hread : s.readAll P (ts.map Typed.kind) = .returns t ts)
    (hend : t.position = s.position + lengthAll ts) : Aligned s.baseSize s.position ts := by
  induction ts generalizing s with
  | nil => trivial
  | cons v ts ih =>
    have hcontent := h.length_content
    have hcapacity := h.size
    obtain ⟨hfirst, hrest⟩ := slice_bytesAll (by omega) hbytes
    rw [lengthAll_cons] at hsize hend
    obtain ⟨s₁, v', hone, hread⟩ := bind_eq_returns.mp hread
    obtain ⟨ts', hall, heq⟩ := map_eq_returns.mp hread
    obtain ⟨rfl, rfl⟩ := List.cons.inj heq
    have haligned : v'.Aligned s.baseSize s.position := by
      -- the cursor would be ahead, and could not come back
      by_contra hnot
      have hlt := h.lt_of_readTyped (by omega) hnot hone
      have hle := le_of_readAll hall
      omega
    -- so the first read leaves the cursor where the second value begins
    obtain ⟨s₁', hone', h₁⟩ := h.readTyped (by omega) hfirst haligned
    obtain ⟨rfl, -⟩ := Outcome.returns.inj (hone.symm.trans hone')
    refine ⟨haligned, ?_⟩
    rw [← h₁.position, ← h₁.baseSize]
    refine @ih s₁ h₁.wellformed ?_ ?_ hall ?_
    · rw [h₁.position, h₁.size]
      omega
    · rw [h₁.content, h₁.position, h₁.endian]
      exact hrest
    · rw [h₁.position]
      omega

/-! ### Round trips -/

/-- For every block size, order of the bytes and stream of values. -/
theorem roundTrips_iff_aligned (P : Platform) {base_size : ℕ} (hb : 1 ≤ base_size) (little : Bool)
    (ts : List Typed) : RoundTrips P base_size little ts ↔ Aligned base_size 0 ts := by
  obtain ⟨s, hwrite, hs, hbase, hendian⟩ := (holds_init P.fill hb little).writeAll (P := P) ts
  obtain ⟨s₁, hset, h₁⟩ := hs.wellformed.setPosition (Nat.zero_le s.capacity)
  rw [List.nil_append] at hs
  -- `setPosition` only moves the cursor back in front of the stream
  have hlength := length_bytesAll P.byteOrder ((init P.fill base_size).setIsLittleEndian
    little).endian ts
  have hsize : s₁.size = lengthAll ts := by
    rw [h₁.size, hs.size, hlength]
    exact max_eq_left (Nat.zero_le _)
  have hbytes : slice s₁.content s₁.position (lengthAll ts) =
      bytesAll P.byteOrder s₁.endian ts := by
    rw [h₁.content, h₁.position, h₁.endian, hendian, ← hlength]
    exact hs.stored
  have hposition := h₁.position
  have hbase₁ : s₁.baseSize = base_size := h₁.baseSize.trans hbase
  have hle : s₁.position + lengthAll ts ≤ s₁.size := by omega
  constructor
  -- the calls are functions of the state, so they lead to `s` and `s₁`
  · rintro ⟨s', s₁', t, hwrite', hset', hread, -, hend⟩
    obtain ⟨rfl, -⟩ := Outcome.returns.inj (hwrite.symm.trans hwrite')
    obtain ⟨rfl, -⟩ := Outcome.returns.inj (hset.symm.trans hset')
    have haligned := h₁.wellformed.aligned_of_readAll hle hbytes hread (by omega)
    rwa [hbase₁, hposition] at haligned
  · intro haligned
    rw [← hbase₁, ← hposition] at haligned
    obtain ⟨t, hread, ht⟩ := h₁.wellformed.readAll hle hbytes haligned
    refine ⟨s, s₁, t, hwrite, hset, hread, ?_, ?_⟩
    · rw [getReadSize_eq ht.wellformed, ht.size, ht.position]
      omega
    · rw [ht.position, hposition, Nat.zero_add]

/-- A byte, a negative number in two bytes and a half-word that fills up the second block. -/
theorem roundTrips_of_aligned :
    1 ≤ 4 ∧ (RoundTrips ⟨fun _ _ => 0, .little, 2 ^ 63⟩ 4 true
        [.fuint32 7, .fint8 (-1), .int32 (-300), .fuint8 2, .fint32 5] ↔
      Aligned 4 0 [.fuint32 7, .fint8 (-1), .int32 (-300), .fuint8 2, .fint32 5]) :=
  ⟨by decide, roundTrips_iff_aligned _ (by decide) _ _⟩

/-- A half-word behind a byte, with blocks of two bytes: the last read is behind the cursor. -/
theorem not_roundTrips_straddling :
    ¬RoundTrips ⟨fun _ _ => 0, .little, 2 ^ 63⟩ 2 false [.fint8 1, .fint16 2] := by
  rintro ⟨s, s₁, s₂, hwrite, hset, hread, -, hend⟩
  obtain ⟨rfl, -⟩ := Outcome.returns.inj hwrite
  obtain ⟨rfl, -⟩ := Outcome.returns.inj hset
  obtain ⟨rfl, -⟩ := Outcome.returns.inj hread
  exact absurd hend (by decide)

end Muhui.ByteArray
