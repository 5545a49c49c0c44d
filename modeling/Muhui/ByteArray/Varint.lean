/-
  The codecs of the variable-length numbers of a `ByteArray`.

  The loop of the writers stays inside its buffer and emits the shortest text of the number.  The
  loop of the readers ends at the last byte of that text, whatever follows it.  Signed numbers are
  folded into unsigned ones and back, at full width.
-/
import Muhui.ByteArray.Typed

namespace Muhui.ByteArray

/-- The bytes from the cursor to the size. -/
def readable (s : ByteArray) : List UInt8 := slice s.content s.position (s.size - s.position)

/-- `tmp`, of `room` bytes at most, is the shortest text of the number `n`, and where it is followed
by any other bytes, the value `a` is read and the cursor moved over the text. -/
structure Codes {α : Type} (room n : ℕ) (read : ByteArray → Outcome α) (a : α)
    (tmp : List UInt8) : Prop where
  emitted : compress room n = some tmp
  text : IsText tmp ∧ ofText tmp = n
  shortest : ∀ bs, IsText bs → ofText bs = n → bs ≠ tmp → tmp.length < bs.length
  decoded : ∀ s, s.Wellformed → ∀ rest, s.readable = tmp ++ rest →
    ∃ t, read s = .returns t a ∧ Becomes s t s.content (s.position + tmp.length) s.size

variable {s : ByteArray} {bits n : ℕ}

theorem Wellformed.length_readable (h : s.Wellformed) :
    s.readable.length = s.size - s.position := by
  have hle := h.position
  have hsize := h.size
  rw [readable, length_slice (by rw [h.length_content]; omega)]

/-- Two parts of the readable bytes, each in its place. -/
theorem Wellformed.readable_append (h : s.Wellformed) {xs ys : List UInt8}
    (hbytes : s.readable = xs ++ ys) :
    s.position + xs.length + ys.length = s.size ∧ slice s.content s.position xs.length = xs ∧
      slice s.content (s.position + xs.length) ys.length = ys := by
  have hle := h.position
  have hsize := h.size
  have hlength := congrArg List.length hbytes
  rw [h.length_readable, List.length_append] at hlength
  rw [readable, hlength, slice_add] at hbytes
  have hfirst : (slice s.content s.position xs.length).length = xs.length :=
    length_slice (by rw [h.length_content]; omega)
  refine ⟨by omega, ?_⟩
  exact List.append_inj hbytes hfirst

/-- A text behind the cursor, with any bytes after it. -/
theorem Wellformed.readVarint (h : s.Wellformed) {rest : List UInt8} (hbits : 0 < bits)
    (hn : n < 2 ^ bits) (hbytes : s.readable = varint n ++ rest) :
    ∃ t, s.readVarint bits = .returns t n ∧
      Becomes s t s.content (s.position + (varint n).length) s.size := by
  -- the text takes up the first bytes that can be read
  obtain ⟨hlength, htext, -⟩ := h.readable_append hbytes
  have hvalue : 0 + n * 2 ^ 0 = n := by omega
  obtain ⟨t, hread, ht⟩ := h.readLoopVarint (by omega) htext Nat.one_pos
    (show 0 + n * 2 ^ 0 < 2 ^ bits by rwa [hvalue]) (length_varint_of_lt hbits hn)
  rw [hvalue] at hread
  exact ⟨t, hread, ht⟩

theorem codes_varint {α : Type} (of : ℕ → α) (hbits : 0 < bits) (hn : n < 2 ^ bits) :
    Codes ((bits + 6) / 7) n (fun s => (s.readVarint bits).map of) (of n) (varint n) where
  emitted := compress_eq (length_varint_of_lt hbits hn)
  text := ⟨isText_varint n, ofText_varint n⟩
  shortest := by
    rintro bs htext rfl hne
    exact (varint_shortest htext).resolve_left hne
  decoded := by
    intro s h rest hbytes
    obtain ⟨t, hread, ht⟩ := h.readVarint hbits hn hbytes
    exact ⟨t, map_eq_returns.mpr ⟨n, hread, rfl⟩, ht⟩

/-- For all numbers of 32 and of 64 bits. -/
theorem varint_and_zigzag_codecs (P : Platform) :
    (∀ v : UInt32, ∃ tmp, Codes 5 v.toNat readUint32 v tmp ∧
      ∀ s : ByteArray, s.writeUint32 P v = s.write P.fill tmp) ∧
    (∀ v : UInt64, ∃ tmp, Codes 10 v.toNat readUint64 v tmp ∧
      ∀ s : ByteArray, s.writeUint64 P v = s.write P.fill tmp) ∧
    (∀ v : Int32, decodeZigzag32 (encodeZigzag32 v) = v) ∧
    (∀ v : Int64, decodeZigzag64 (encodeZigzag64 v) = v) ∧
    (∀ v : UInt32, encodeZigzag32 (decodeZigzag32 v) = v) ∧
    ∀ v : UInt64, encodeZigzag64 (decodeZigzag64 v) = v := by
  refine ⟨fun v => ?_, fun v => ?_, decodeZigzag32_encodeZigzag32, decodeZigzag64_encodeZigzag64,
    encodeZigzag32_decodeZigzag32, encodeZigzag64_decodeZigzag64⟩
  · have hcodes := codes_varint UInt32.ofNat (show 0 < 32 by norm_num) v.toNat_lt
    rw [UInt32.ofNat_toNat] at hcodes
    exact ⟨_, hcodes, fun s => writeTyped_eq_write (.uint32 v)⟩
  · have hcodes := codes_varint UInt64.ofNat (show 0 < 64 by norm_num) v.toNat_lt
    rw [UInt64.ofNat_toNat] at hcodes
    exact ⟨_, hcodes, fun s => writeTyped_eq_write (.uint64 v)⟩

/-- The least number, and two bytes for 300. -/
example : encodeZigzag32 Int32.minValue = 0xFFFFFFFF ∧ compress 5 300 = some [0xAC, 0x02] := by
  decide

end Muhui.ByteArray
