/-
  A string is written with its length in front to a fresh `ByteArray`, and read back.

  With a length of fixed width the string is found again; the cursor is where it should be only if
  the string does not leave the block in whose middle it begins, and for the empty string there must
  be a block behind the length.  `writeStringVint` and `readStringVint` do not belong together: one
  writes a variable-length number, the other one reads eight bytes.
-/
import Muhui.ByteArray.Retry
import Muhui.ByteArray.RoundTrip

namespace Muhui.ByteArray

/-- The string that is written to a fresh `ByteArray` is read from position 0 on, and the cursor is
at the end of the data then. -/
def StringRoundTrips (P : Platform) (base_size : ℕ) (little : Bool) (framing : Framing)
    (value : List UInt8) : Prop :=
  ∃ s s₁ s₂, ((init P.fill base_size).setIsLittleEndian little).writeString P value framing =
      .returns s () ∧
    s.setPosition 0 = .returns s₁ () ∧ s₁.readString P framing = .returns s₂ (.ok value) ∧
      s₂.position = s.size

/-- The lengths that fit in front of a string. -/
def Framing.Admits (n : ℕ) : Framing → Prop
  | .f16 => n ≤ 65535
  | .f32 => n < 2 ^ 32
  | .f64 => True
  | .vint => True

/-- Behind a length of `w` bytes, the string does not leave the block in whose middle it begins; the
empty string is not behind the last block. -/
def FitsBehind (b w : ℕ) (value : List UInt8) : Prop :=
  if value = [] then w % b ≠ 0 else w % b = 0 ∨ w % b + value.length ≤ b

def StringFits (b : ℕ) (value : List UInt8) : Framing → Prop
  | .f16 => FitsBehind b 2 value
  | .f32 => FitsBehind b 4 value
  | .f64 => FitsBehind b 8 value
  | .vint => False

variable {P : Platform} {s s₁ s₂ t : ByteArray} {b w base_size : ℕ} {little : Bool}
  {framing : Framing} {value pre : List UInt8}

/-! ### Writing -/

/-- The length in front of a string, as a value. -/
def Framing.length (n : ℕ) : Framing → Typed
  | .f16 => .fuint16 (UInt16.ofNat n)
  | .f32 => .fuint32 (UInt32.ofNat n)
  | .f64 => .fuint64 (UInt64.ofNat n)
  | .vint => .uint64 (UInt64.ofNat n)

theorem Framing.width_pos (framing : Framing) : 0 < framing.width := by
  cases framing <;> exact Nat.succ_pos _

/-- Each length is the number that it is converted from. -/
theorem Framing.number_length (framing : Framing) {n : ℕ} (hn : n < 2 ^ 64)
    (hadmits : framing.Admits n) :
    (framing.length n).number = n ∧ (framing ≠ .vint → n < 256 ^ framing.width) := by
  cases framing with
  | f16 =>
    have hlt : n < 2 ^ 16 := Nat.lt_succ_of_le hadmits
    exact ⟨UInt16.toNat_ofNat_of_lt' hlt, fun _ => hlt⟩
  | f32 => exact ⟨UInt32.toNat_ofNat_of_lt' hadmits, fun _ => hadmits⟩
  | f64 => exact ⟨UInt64.toNat_ofNat_of_lt' hn, fun _ => hn⟩
  | vint => exact ⟨UInt64.toNat_ofNat_of_lt' hn, fun hne => absurd rfl hne⟩

theorem Framing.bytes_length (framing : Framing) {n : ℕ} {byteOrder e : Endian}
    (hne : framing ≠ .vint) (hnumber : (framing.length n).number = n) :
    (framing.length n).bytes byteOrder e =
      memory byteOrder framing.width (if e ≠ byteOrder then byteswap framing.width n else n) := by
  have hbytes : (framing.length n).bytes byteOrder e = memory byteOrder framing.width
      (if e ≠ byteOrder then byteswap framing.width (framing.length n).number
        else (framing.length n).number) := by
    cases framing with
    | vint => exact absurd rfl hne
    | _ => rfl
  rw [hbytes, hnumber]

theorem writeString_eq (framing : Framing) (value : List UInt8) :
    s.writeString P value framing =
      (s.write P.fill ((framing.length value.length).bytes P.byteOrder s.endian)).bind
        fun t _ => t.write P.fill value := by
  rw [← writeTyped_eq_write]
  cases framing <;> rfl

/-- What is behind the cursor when a string with the bytes `pre` in front has been written and
`setPosition(0)` has been called. -/
structure Framed (s : ByteArray) (b : ℕ) (pre value : List UInt8) : Prop where
  wellformed : s.Wellformed
  position : s.position = 0
  size : s.size = pre.length + value.length
  baseSize : s.baseSize = b
  readable : s.readable = pre ++ value
  capacity : value = [] → 0 < pre.length → pre.length % b = 0 → s.capacity = pre.length

/-- A fresh `ByteArray` grows to the blocks that are needed. -/
theorem capacity_addCapacity_init {fill : ℕ → ℕ → UInt8} (hb : 1 ≤ b) {n : ℕ} (hn : 0 < n)
    (hmod : n % b = 0) :
    (((init fill b).setIsLittleEndian little).addCapacity fill n).capacity = n := by
  have h := (holds_init fill hb little).wellformed
  obtain ⟨q, rfl⟩ := Nat.dvd_of_mod_eq_zero hmod
  obtain ⟨q, rfl⟩ : ∃ m, q = m + 1 := ⟨q - 1, by cases q <;> omega⟩
  rcases Nat.eq_zero_or_pos q with rfl | hq
  · rw [addCapacity_of_le fill h (by show 0 + b * 1 ≤ b; omega)]
    exact (Nat.mul_one b).symm
  · have hlt : b < 0 + b * (q + 1) := by
      have hmul := Nat.mul_le_mul_left b hq
      rw [Nat.mul_add, Nat.mul_one]
      omega
    rw [addCapacity_of_lt fill h hlt]
    show b + blocksFor b (0 + b * (q + 1) - b) * b = b * (q + 1)
    have hmissing : 0 + b * (q + 1) - b = b * q := by
      rw [Nat.mul_add, Nat.mul_one]
      omega
    -- `q` blocks are missing
    have hcount : blocksFor b (b * q) = q := by
      rw [blocksFor, Nat.mul_add_div hb, Nat.div_eq_of_lt (by omega), Nat.add_zero]
    rw [hmissing, hcount, Nat.mul_comm q b, Nat.mul_add, Nat.mul_one, Nat.add_comm]

variable (P little) in
/-- The string written, with the cursor back at its beginning. -/
theorem exists_framed (hb : 1 ≤ base_size) (framing : Framing) (value : List UInt8) :
    ∃ s s₁, ((init P.fill base_size).setIsLittleEndian little).writeString P value framing =
        .returns s () ∧
      s.setPosition 0 = .returns s₁ () ∧ s₁.size = s.size ∧
      s₁.endian = (if little then .little else .big) ∧
      Framed s₁ base_size ((framing.length value.length).bytes P.byteOrder
        (if little then .little else .big)) value := by
  have hinit := holds_init P.fill hb little
  have hcapacity := @capacity_addCapacity_init base_size little P.fill hb
  have hendian₀ : ((init P.fill base_size).setIsLittleEndian little).endian =
      if little then .little else .big := rfl
  obtain ⟨r, hwrite, hr, hbase, hendian⟩ :=
    hinit.write P.fill ((framing.length value.length).bytes P.byteOrder
      (if little then .little else .big))
  obtain ⟨s, hwrite', hs, hbase', hendian'⟩ := hr.write P.fill value
  rw [List.nil_append] at hr hs
  obtain ⟨s₁, hset, h₁⟩ := hs.wellformed.setPosition (Nat.zero_le s.capacity)
  have hsize : s₁.size = s.size := h₁.size.trans (max_eq_left (Nat.zero_le _))
  refine ⟨s, s₁, ?_, hset, hsize, ?_, h₁.wellformed, h₁.position, ?_, ?_, ?_, ?_⟩
  · rw [writeString_eq, hendian₀, hwrite]
    exact hwrite'
  · rw [h₁.endian, hendian', hendian, hendian₀]
  · rw [hsize, hs.size, List.length_append]
  · rw [h₁.baseSize, hbase', hbase]
    rfl
  · rw [ByteArray.readable, h₁.content, h₁.position, hsize, Nat.sub_zero, hs.size, hs.stored]
  · rintro rfl hpos hmod
    obtain ⟨rfl, -⟩ := Outcome.returns.inj hwrite'
    -- nothing is written behind the length, so the length decides about the blocks
    obtain ⟨r', hr', hbecomes⟩ := hinit.wellformed.write P.fill
      ((framing.length 0).bytes P.byteOrder (if little then .little else .big))
    obtain ⟨rfl, -⟩ := Outcome.returns.inj (hwrite.symm.trans hr')
    obtain ⟨hgrown, hroom, -⟩ := hinit.wellformed.addCapacity P.fill
      ((framing.length 0).bytes P.byteOrder (if little then .little else .big)).length
    rw [← h₁.wellformed.length_content, h₁.content, hbecomes.content, length_overwrite,
      hgrown.length_content]
    · exact hcapacity hpos hmod
    · rw [hgrown.length_content]
      exact hroom

/-! ### Lengths of fixed width -/

/-- Behind the length of fixed width, the string is read. -/
theorem Framed.wordAt_eq (h : Framed s b pre value) (hpre : pre = memory P.byteOrder w
      (if s.endian ≠ P.byteOrder then byteswap w value.length else value.length))
    (hw : 0 < w) (hlt : value.length < 256 ^ w) : s.wordAt P w = value.length := by
  have hlength : pre.length = w := by rw [hpre, length_memory]
  obtain ⟨hsize, hfirst, -⟩ := h.wellformed.readable_append h.readable
  rw [hlength] at hsize hfirst
  have hfits : s.Fits s.position w := by
    rw [Fits, if_neg (by omega), h.position, Nat.zero_mod]
    exact .inl rfl
  obtain ⟨t, hread, -⟩ := h.wellformed.readWord (P := P) hlt (by omega) (hfirst.trans hpre) hfits
  rw [h.wellformed.readWord_eq hw, if_neg (by omega)] at hread
  exact (Outcome.returns.inj hread).2

theorem Framed.fits_iff (h : Framed s b pre value) (hlength : pre.length = w) (hw : 0 < w) :
    s.Fits w value.length ↔ FitsBehind b w value := by
  unfold Fits FitsBehind
  simp only [List.length_eq_zero_iff, h.baseSize]
  split_ifs with hnil
  · constructor
    · intro hlt hmod
      have hcapacity := h.capacity hnil (by omega) (by rwa [hlength])
      omega
    -- the capacity is a multiple of the block size, and holds the length
    · intro hmod
      have hsize := h.wellformed.size
      have hcapacity := h.wellformed.capacity
      rw [h.size, hnil, List.length_nil, hlength] at hsize
      rcases Nat.eq_or_lt_of_le hsize with heq | hlt
      · rw [← heq, h.baseSize, Nat.add_zero] at hcapacity
        rw [hcapacity, Nat.mul_mod_right] at hmod
        exact absurd rfl hmod
      · exact hlt
  · exact Iff.rfl

theorem Framed.read_iff (h : Framed s b pre value) (hpre : pre = memory P.byteOrder w
      (if s.endian ≠ P.byteOrder then byteswap w value.length else value.length))
    (hw : 0 < w) (hlt : value.length < 256 ^ w) (hvalue : value.length ≤ P.maxSize) :
    (∃ t, ((s.readWord P w).bind fun t v => t.readStringOf P v) = .returns t (.ok value) ∧
      t.position = s.size) ↔ FitsBehind b w value := by
  have hword := h.wordAt_eq hpre hw hlt
  have hlength : pre.length = w := by rw [hpre, length_memory]
  have hsize := h.size
  have hposition := h.position
  rw [← h.fits_iff hlength hw]
  have hstring := h.wellformed.retries_string (P := P) hw
  rw [hword, LengthArrived, hword, h.position, Nat.zero_add] at hstring
  constructor
  · rintro ⟨t, hread, ht⟩
    have harrived := hstring.mp (.inl ⟨t, value, w + value.length, hread, rfl, by omega⟩)
    obtain ⟨-, -, -, hfits⟩ := harrived.resolve_left (by omega)
    exact hfits
  · intro hfits
    have hfits₀ : s.Fits 0 w := by
      rw [Fits, if_neg (by omega), Nat.zero_mod]
      exact .inl rfl
    have hmoved : (s.moved w).position = s.position + w :=
      (fits_iff_moved hw).mp (by rw [hposition]; exact hfits₀)
    have hbehind := h.wellformed.moved (by omega) hmoved
    rw [hposition, Nat.zero_add] at hmoved
    obtain ⟨t, hread, ht⟩ := hbehind.read_of_fits (n := value.length)
      (by rw [hmoved]; show _ ≤ s.size; omega) (by rw [hmoved]; exact hfits)
    obtain ⟨-, -, hsecond⟩ := h.wellformed.readable_append h.readable
    rw [hlength, hposition, Nat.zero_add] at hsecond
    refine ⟨t, ?_, ?_⟩
    · rw [h.wellformed.readWord_eq hw, if_neg (by omega), hword]
      show (s.moved w).readStringOf P value.length = _
      have hbytes : slice (s.moved w).content (s.moved w).position value.length = value := by
        rw [hmoved]
        exact hsecond
      rw [readStringOf, if_neg (by omega), hread, hbytes]
      rfl
    · rw [ht.position, hmoved]
      omega

/-! ### Variable-length numbers -/

/-- Eight bytes are never the variable-length number in front of them, and the cursor would have to
come back, too. -/
theorem Framed.not_read_vint (h : Framed s b (varint value.length) value)
    (hmax : P.maxSize < 2 ^ 63) (hvalue : value.length ≤ P.maxSize) :
    ¬∃ t, ((s.readWord P 8).bind fun t v => t.readStringOf P v) = .returns t (.ok value) ∧
      t.position = s.size := by
  rintro ⟨t, hread, ht⟩
  have hten : (varint value.length).length ≤ (64 + 6) / 7 :=
    length_varint_of_lt (by norm_num) (by omega)
  have htext := textLength_varint hten value
  rw [← h.readable] at htext
  have htake : s.readable.take (varint value.length).length = varint value.length := by
    rw [h.readable, List.take_left]
  have hlen : s.stringLengthAt P .vint =
      some ((varint value.length).length + value.length) := by
    rw [stringLengthAt, htext, Option.map_some, htake, ofText_varint, Nat.mod_eq_of_lt (by omega)]
  have hretries : Retries s (s.stringLengthAt P .vint)
      ((s.readWord P 8).bind fun t v => t.readStringOf P v) := by
    refine .inl ⟨t, value, _, hread, hlen, ?_⟩
    rw [ht, h.size, h.position, Nat.zero_add]
  -- so it would be a read that can be retried, which throws here
  have hthrows := (h.wellformed.retries_vint hmax).mp hretries
  rw [h.wellformed.readWord_eq (by norm_num), if_pos hthrows] at hread
  cases hread

/-! ### Round trips -/

/-- For every framing and string, block size and order of the bytes. -/
theorem stringRoundTrips_iff_fits (hmax : P.maxSize < 2 ^ 63) (hb : 1 ≤ base_size)
    (little : Bool) (framing : Framing) (hvalue : value.length ≤ P.maxSize)
    (hadmits : framing.Admits value.length) :
    StringRoundTrips P base_size little framing value ↔ StringFits base_size value framing := by
  obtain ⟨s, s₁, hwrite, hset, hsize, hendian, h⟩ := exists_framed P little hb framing value
  have hround : StringRoundTrips P base_size little framing value ↔
      ∃ t, ((s₁.readWord P framing.width).bind fun t v => t.readStringOf P v) =
        .returns t (.ok value) ∧ t.position = s₁.size := by
    rw [← readString_eq, hsize]
    constructor
    · rintro ⟨s', s₁', t, hwrite', hset', hread, ht⟩
      obtain ⟨rfl, -⟩ := Outcome.returns.inj (hwrite.symm.trans hwrite')
      obtain ⟨rfl, -⟩ := Outcome.returns.inj (hset.symm.trans hset')
      exact ⟨t, hread, ht⟩
    · rintro ⟨t, hread, ht⟩
      exact ⟨s, s₁, t, hwrite, hset, hread, ht⟩
  rw [hround]
  rw [← hendian] at h
  obtain ⟨hnumber, hwidth⟩ := framing.number_length (show value.length < 2 ^ 64 by omega) hadmits
  rcases eq_or_ne framing .vint with rfl | hne
  · have hpre : (Framing.vint.length value.length).bytes P.byteOrder s₁.endian =
        varint value.length := congrArg varint hnumber
    rw [hpre] at h
    exact iff_of_false (h.not_read_vint hmax hvalue) id
  · have hfits : StringFits base_size value framing ↔ FitsBehind base_size framing.width value := by
      cases framing with
      | vint => exact absurd rfl hne
      | _ => exact Iff.rfl
    rw [hfits]
    exact h.read_iff (framing.bytes_length hne hnumber) framing.width_pos (hwidth hne) hvalue

/-- Two bytes behind a length of two bytes, in one block of four. -/
theorem stringRoundTrips_of_two :
    (2 ^ 62 < 2 ^ 63 ∧ 1 ≤ 4 ∧ [1, 2].length ≤ 2 ^ 62 ∧ Framing.f16.Admits [1, 2].length) ∧
    (StringRoundTrips ⟨fun _ _ => 0, .little, 2 ^ 62⟩ 4 true .f16 [1, 2] ↔
      StringFits 4 [1, 2] .f16) := by
  have hadmits : Framing.f16.Admits [1, 2].length := show 2 ≤ 65535 by decide
  exact ⟨⟨by decide, by decide, by decide, hadmits⟩,
    stringRoundTrips_iff_fits (P := ⟨fun _ _ => 0, .little, 2 ^ 62⟩) (by decide) (by decide) true
      .f16 (by decide) hadmits⟩

/-- The length of one byte is in the buffer, and eight bytes are asked for. -/
theorem not_stringRoundTrips_vint :
    ¬StringRoundTrips ⟨fun _ _ => 0, .little, 2 ^ 62⟩ 4 true .vint [7] := by
  rintro ⟨s, s₁, s₂, hwrite, hset, hread, -⟩
  obtain ⟨rfl, -⟩ := Outcome.returns.inj hwrite
  obtain ⟨rfl, -⟩ := Outcome.returns.inj hset
  cases hread

end Muhui.ByteArray
