/-
  What the typed functions of `ByteArray` write and read.

  Every type is a word of some width or a variable-length number (`Kind.shape`), and its values are
  numbers (`Typed.number`).  The write of a value hands its bytes to `write` at once
  (`writeTyped_eq_write`); the read finds them again where they have been written
  (`Wellformed.readTyped`), and moves the cursor over them, or further.
-/
import Muhui.ByteArray.Codec
import Muhui.ByteArray.Reading

namespace Muhui.ByteArray

/-! ### Types -/

/-- How a type is written: as a word of `w` bytes, or as a variable-length number of `bits` bits;
`of` is the value of a number. -/
inductive Shape
  | word (w : ℕ) (of : ℕ → Typed)
  | varint (bits : ℕ) (of : ℕ → Typed)

def Kind.shape : Kind → Shape
  | .fint8 => .word 1 fun v => .fint8 (UInt8.ofNat v).toInt8
  | .fuint8 => .word 1 fun v => .fuint8 (UInt8.ofNat v)
  | .fint16 => .word 2 fun v => .fint16 (UInt16.ofNat v).toInt16
  | .fuint16 => .word 2 fun v => .fuint16 (UInt16.ofNat v)
  | .fint32 => .word 4 fun v => .fint32 (UInt32.ofNat v).toInt32
  | .fuint32 => .word 4 fun v => .fuint32 (UInt32.ofNat v)
  | .fint64 => .word 8 fun v => .fint64 (UInt64.ofNat v).toInt64
  | .fuint64 => .word 8 fun v => .fuint64 (UInt64.ofNat v)
  | .int32 => .varint 32 fun v => .int32 (decodeZigzag32 (UInt32.ofNat v))
  | .uint32 => .varint 32 fun v => .uint32 (UInt32.ofNat v)
  | .int64 => .varint 64 fun v => .int64 (decodeZigzag64 (UInt64.ofNat v))
  | .uint64 => .varint 64 fun v => .uint64 (UInt64.ofNat v)
  | .float => .word 4 fun v => .float (UInt32.ofNat v)
  | .double => .word 8 fun v => .double (UInt64.ofNat v)

/-- The number that a value is written as. -/
def Typed.number : Typed → ℕ
  | .fint8 v => v.toUInt8.toNat
  | .fuint8 v => v.toNat
  | .fint16 v => v.toUInt16.toNat
  | .fuint16 v => v.toNat
  | .fint32 v => v.toUInt32.toNat
  | .fuint32 v => v.toNat
  | .fint64 v => v.toUInt64.toNat
  | .fuint64 v => v.toNat
  | .int32 v => (encodeZigzag32 v).toNat
  | .uint32 v => v.toNat
  | .int64 v => (encodeZigzag64 v).toNat
  | .uint64 v => v.toNat
  | .float v => v.toNat
  | .double v => v.toNat

/-- The number of bytes that a value takes. -/
def Typed.length (t : Typed) : ℕ :=
  match t.kind.shape with
  | .word w _ => w
  | .varint _ _ => (varint t.number).length

/-! ### Zigzag -/

theorem encodeZigzag32_toBitVec (v : Int32) : (encodeZigzag32 v).toBitVec = zigzag v.toBitVec := by
  have hneg : v < 0 ↔ v.toBitVec.msb = true := by
    rw [Int32.lt_iff_toBitVec_slt, ← BitVec.slt_zero_eq_msb]
    rfl
  unfold encodeZigzag32 zigzag
  simp only [hneg]
  split_ifs <;> rfl

theorem decodeZigzag32_toBitVec (v : UInt32) :
    (decodeZigzag32 v).toBitVec = unzigzag v.toBitVec := rfl

theorem encodeZigzag64_toBitVec (v : Int64) : (encodeZigzag64 v).toBitVec = zigzag v.toBitVec := by
  have hneg : v < 0 ↔ v.toBitVec.msb = true := by
    rw [Int64.lt_iff_toBitVec_slt, ← BitVec.slt_zero_eq_msb]
    rfl
  unfold encodeZigzag64 zigzag
  simp only [hneg]
  split_ifs <;> rfl

theorem decodeZigzag64_toBitVec (v : UInt64) :
    (decodeZigzag64 v).toBitVec = unzigzag v.toBitVec := rfl

theorem decodeZigzag32_encodeZigzag32 (v : Int32) : decodeZigzag32 (encodeZigzag32 v) = v := by
  apply Int32.toBitVec_inj.mp
  rw [decodeZigzag32_toBitVec, encodeZigzag32_toBitVec, unzigzag_zigzag (by norm_num)]

theorem encodeZigzag32_decodeZigzag32 (v : UInt32) : encodeZigzag32 (decodeZigzag32 v) = v := by
  apply UInt32.toBitVec_inj.mp
  rw [encodeZigzag32_toBitVec, decodeZigzag32_toBitVec, zigzag_unzigzag (by norm_num)]

theorem decodeZigzag64_encodeZigzag64 (v : Int64) : decodeZigzag64 (encodeZigzag64 v) = v := by
  apply Int64.toBitVec_inj.mp
  rw [decodeZigzag64_toBitVec, encodeZigzag64_toBitVec, unzigzag_zigzag (by norm_num)]

theorem encodeZigzag64_decodeZigzag64 (v : UInt64) : encodeZigzag64 (decodeZigzag64 v) = v := by
  apply UInt64.toBitVec_inj.mp
  rw [encodeZigzag64_toBitVec, decodeZigzag64_toBitVec, zigzag_unzigzag (by norm_num)]

/-! ### Numbers and values -/

theorem number_lt (t : Typed) :
    match t.kind.shape with
    | .word w _ => t.number < 256 ^ w
    | .varint bits _ => t.number < 2 ^ bits := by
  cases t with
  | fint8 v => exact v.toUInt8.toNat_lt
  | fuint8 v => exact v.toNat_lt
  | fint16 v => exact v.toUInt16.toNat_lt
  | fuint16 v => exact v.toNat_lt
  | fint32 v => exact v.toUInt32.toNat_lt
  | fuint32 v => exact v.toNat_lt
  | fint64 v => exact v.toUInt64.toNat_lt
  | fuint64 v => exact v.toNat_lt
  | int32 v => exact (encodeZigzag32 v).toNat_lt
  | uint32 v => exact v.toNat_lt
  | int64 v => exact (encodeZigzag64 v).toNat_lt
  | uint64 v => exact v.toNat_lt
  | float v => exact v.toNat_lt
  | double v => exact v.toNat_lt

/-- The value of a number, in the type of `t`. -/
def Shape.of : Shape → ℕ → Typed
  | .word _ of, v => of v
  | .varint _ of, v => of v

theorem of_number (t : Typed) : t.kind.shape.of t.number = t := by
  cases t with
  | int32 v =>
    show Typed.int32 (decodeZigzag32 (UInt32.ofNat (encodeZigzag32 v).toNat)) = _
    rw [UInt32.ofNat_toNat, decodeZigzag32_encodeZigzag32]
  | int64 v =>
    show Typed.int64 (decodeZigzag64 (UInt64.ofNat (encodeZigzag64 v).toNat)) = _
    rw [UInt64.ofNat_toNat, decodeZigzag64_encodeZigzag64]
  | fint8 v => exact congrArg (fun u => Typed.fint8 u.toInt8) UInt8.ofNat_toNat
  | fint16 v => exact congrArg (fun u => Typed.fint16 u.toInt16) UInt16.ofNat_toNat
  | fint32 v => exact congrArg (fun u => Typed.fint32 u.toInt32) UInt32.ofNat_toNat
  | fint64 v => exact congrArg (fun u => Typed.fint64 u.toInt64) UInt64.ofNat_toNat
  | _ => simp [Kind.shape, Shape.of, Typed.number, Typed.kind]

/-- Only one number has the value, among those that have the width of the type. -/
theorem number_eq_of_varint {t : Typed} {bits v : ℕ} {of : ℕ → Typed}
    (hshape : t.kind.shape = .varint bits of) (hv : v < 2 ^ bits) (hof : of v = t) :
    v = t.number := by
  cases t with
  | int32 x =>
    obtain ⟨rfl, rfl⟩ := Shape.varint.inj hshape
    have hx := Typed.int32.inj hof
    show v = (encodeZigzag32 x).toNat
    rw [← hx, encodeZigzag32_decodeZigzag32, UInt32.toNat_ofNat_of_lt' hv]
  | uint32 x =>
    obtain ⟨rfl, rfl⟩ := Shape.varint.inj hshape
    have hx := Typed.uint32.inj hof
    show v = x.toNat
    rw [← hx, UInt32.toNat_ofNat_of_lt' hv]
  | int64 x =>
    obtain ⟨rfl, rfl⟩ := Shape.varint.inj hshape
    have hx := Typed.int64.inj hof
    show v = (encodeZigzag64 x).toNat
    rw [← hx, encodeZigzag64_decodeZigzag64, UInt64.toNat_ofNat_of_lt' hv]
  | uint64 x =>
    obtain ⟨rfl, rfl⟩ := Shape.varint.inj hshape
    have hx := Typed.uint64.inj hof
    show v = x.toNat
    rw [← hx, UInt64.toNat_ofNat_of_lt' hv]
  | _ => cases hshape

/-! ### The calls, by shape -/

section Calls

variable (P : Platform) (s : ByteArray)

theorem word_memory {e : Endian} {w v : ℕ} (hv : v < 256 ^ w) : word e (memory e w v) = v := by
  cases e with
  | little => exact ofLittleEndian_littleEndian hv
  | big =>
    show ofLittleEndian (littleEndian w v).reverse.reverse = v
    rw [List.reverse_reverse, ofLittleEndian_littleEndian hv]

theorem word_lt (e : Endian) (bs : List UInt8) : word e bs < 256 ^ bs.length := by
  cases e with
  | little => exact ofLittleEndian_lt bs
  | big =>
    rw [← List.length_reverse]
    exact ofLittleEndian_lt bs.reverse

theorem length_memory (e : Endian) (w v : ℕ) : (memory e w v).length = w := by
  cases e with
  | little => exact length_littleEndian w v
  | big =>
    show (littleEndian w v).reverse.length = w
    rw [List.length_reverse, length_littleEndian]

theorem littleEndian_byte (b : UInt8) : littleEndian 1 b.toNat = [b] := by
  have hb := b.toNat_lt
  have hmod : b.toNat % 256 = b.toNat := Nat.mod_eq_of_lt hb
  show [UInt8.ofNat (b.toNat % 256)] = [b]
  rw [hmod, UInt8.ofNat_toNat]

/-- A byte has no order. -/
theorem byteswap_byte (b : UInt8) : byteswap 1 b.toNat = b.toNat := by
  rw [byteswap, littleEndian_byte]
  rfl

theorem memory_byte (e : Endian) (b : UInt8) : memory e 1 b.toNat = [b] := by
  cases e with
  | little => exact littleEndian_byte b
  | big =>
    show (littleEndian 1 b.toNat).reverse = [b]
    rw [littleEndian_byte]
    rfl

theorem writeWord_byte (b : UInt8) : s.writeWord P 1 b.toNat = s.write P.fill [b] := by
  rw [writeWord, byteswap_byte, ite_self, memory_byte]

theorem writeTyped_eq (t : Typed) :
    s.writeTyped P t =
      match t.kind.shape with
      | .word w _ => s.writeWord P w t.number
      | .varint bits _ => s.writeVarint P ((bits + 6) / 7) t.number := by
  cases t with
  | fint8 v => exact (writeWord_byte P s v.toUInt8).symm
  | fuint8 v => exact (writeWord_byte P s v).symm
  | _ => rfl

theorem map_map {α β γ : Type} (f : α → β) (g : β → γ) (o : Outcome α) :
    (o.map f).map g = o.map fun a => g (f a) := by
  cases o <;> rfl

theorem map_bind {α β γ : Type} (f : α → β) (g : ByteArray → β → Outcome γ) (o : Outcome α) :
    (o.map f).bind g = o.bind fun s a => g s (f a) := by
  cases o <;> rfl

theorem readFuint8_eq : s.readFuint8 = (s.readWord P 1).map UInt8.ofNat := by
  unfold readFuint8 readWord
  cases hread : s.read 1 with
  | throws t => rfl
  | faults => rfl
  | returns t buf =>
    obtain ⟨b, rfl⟩ := List.length_eq_one_iff.mp (length_of_read hread)
    have hword : word P.byteOrder [b] = b.toNat := by
      cases P.byteOrder <;> rfl
    show Outcome.returns t b =
      .returns t (UInt8.ofNat (if _ then word P.byteOrder [b] else byteswap 1 (word _ [b])))
    rw [hword, byteswap_byte, ite_self, UInt8.ofNat_toNat]

theorem readFint8_eq : s.readFint8 = s.readFuint8.map UInt8.toInt8 := by
  unfold readFint8 readFuint8
  rw [map_map]

theorem readTyped_eq (k : Kind) :
    s.readTyped P k =
      match k.shape with
      | .word w of => (s.readWord P w).map of
      | .varint bits of => (s.readVarint bits).map of := by
  cases k with
  | fint8 =>
    show s.readFint8.map Typed.fint8 = _
    rw [readFint8_eq, readFuint8_eq P, map_map, map_map]
    rfl
  | fuint8 =>
    show s.readFuint8.map Typed.fuint8 = _
    rw [readFuint8_eq P, map_map]
    rfl
  | fint16 => exact map_map _ _ _
  | fuint16 => exact map_map _ _ _
  | fint32 => exact map_map _ _ _
  | fuint32 => exact map_map _ _ _
  | fint64 => exact map_map _ _ _
  | fuint64 => exact map_map _ _ _
  | uint32 => exact map_map _ _ _
  | uint64 => exact map_map _ _ _
  | float => exact map_map _ _ _
  | double => exact map_map _ _ _
  | int32 => exact (map_map _ _ _).trans (map_map _ _ _)
  | int64 => exact (map_map _ _ _).trans (map_map _ _ _)

end Calls

/-! ### Variable-length numbers -/

section Varint

variable {P : Platform} {s t : ByteArray} {bits i v n result passes : ℕ}

theorem or_shiftLeft {i result x : ℕ} (h : result < 2 ^ i) :
    result ||| x <<< i = result + x * 2 ^ i := by
  rw [Nat.shiftLeft_eq, Nat.or_comm, Nat.mul_comm, ← Nat.two_pow_add_eq_or_of_lt h, Nat.add_comm]

/-- The bytes that `tmp` is filled with, when they fit. -/
theorem compress_eq {room : ℕ} (h : (varint v).length ≤ room) :
    compress room v = some (varint v) := by
  induction room generalizing v with
  | zero =>
    have := length_varint_pos v
    omega
  | succ room ih =>
    have hlow : v &&& 0x7F = v % 128 := Nat.and_two_pow_sub_one_eq_mod v 7
    have hhigh : v >>> 7 = v / 128 := Nat.shiftRight_eq_div_pow v 7
    have hor : v % 128 ||| 0x80 = v % 128 + 128 :=
      or_shiftLeft (i := 7) (x := 1) (Nat.mod_lt v (by norm_num))
    rw [compress, hlow, hhigh, hor]
    rcases Nat.lt_or_ge v 128 with hlt | hge
    · rw [if_neg (by omega), varint_of_lt hlt]
    · rw [varint_of_ge hge, List.length_cons] at h
      rw [if_pos hge, ih (by omega), varint_of_ge hge]
      rfl

theorem length_varint_of_lt (hbits : 0 < bits) (h : v < 2 ^ bits) :
    (varint v).length ≤ (bits + 6) / 7 := by
  obtain ⟨k, hk⟩ : ∃ k, (bits + 6) / 7 = k + 1 := ⟨(bits + 6) / 7 - 1, by omega⟩
  rw [hk]
  apply length_varint_le
  calc v < 2 ^ bits := h
    _ ≤ 2 ^ (7 * (k + 1)) := Nat.pow_le_pow_right (by norm_num) (by omega)
    _ = 128 ^ (k + 1) := Nat.pow_mul 2 7 (k + 1)

/-- A byte of a text: its high bit, and its seven low ones. -/
theorem byte_and_0x7f (b : UInt8) : (b &&& 0x7f).toNat = b.toNat % 128 := by
  rw [UInt8.toNat_and]
  exact Nat.and_two_pow_sub_one_eq_mod b.toNat 7

theorem byte_lt_0x80 (b : UInt8) : b < 0x80 ↔ b.toNat < 128 := UInt8.lt_iff_toNat_lt

/-- A byte is read where it is. -/
theorem Wellformed.readFuint8 (h : s.Wellformed) {b : UInt8} (hsize : s.position + 1 ≤ s.size)
    (hbyte : slice s.content s.position 1 = [b]) :
    ∃ t, s.readFuint8 = .returns t b ∧ Becomes s t s.content (s.position + 1) s.size := by
  have hmod := Nat.mod_lt s.position h.base
  have hfits : s.Fits s.position 1 := by
    rw [Fits, if_neg Nat.one_ne_zero]
    omega
  obtain ⟨t, hread, ht⟩ := h.read_of_fits hsize hfits
  refine ⟨t, ?_, ht⟩
  rw [ByteArray.readFuint8, hread, hbyte]
  rfl

/-- The seven low bits of a number and the rest of it. -/
theorem low_add_high (v i : ℕ) : v % 128 * 2 ^ i + v / 128 * 2 ^ (i + 7) = v * 2 ^ i := by
  rw [Nat.pow_add, Nat.mul_comm (2 ^ i), ← Nat.mul_assoc, ← Nat.add_mul]
  congr 1
  omega

theorem add_low_lt (h : result < 2 ^ i) (v : ℕ) : result + v % 128 * 2 ^ i < 2 ^ (i + 7) := by
  have hdigit : v % 128 + 1 ≤ 2 ^ 7 := Nat.mod_lt v (by norm_num)
  calc result + v % 128 * 2 ^ i < (v % 128 + 1) * 2 ^ i := by
        rw [Nat.add_mul, Nat.one_mul]
        omega
    _ ≤ 2 ^ 7 * 2 ^ i := Nat.mul_le_mul_right _ hdigit
    _ = 2 ^ (i + 7) := by rw [Nat.pow_add, Nat.mul_comm]

/-- Seven bits are put above the result. -/
theorem or_shiftLeft_mod {x : ℕ} (h : result < 2 ^ i) (hbits : result + x * 2 ^ i < 2 ^ bits) :
    result ||| x <<< i % 2 ^ bits = result + x * 2 ^ i := by
  have hmod : x <<< i % 2 ^ bits = x <<< i := by
    rw [Nat.shiftLeft_eq]
    exact Nat.mod_eq_of_lt (by omega)
  rw [hmod, or_shiftLeft h]

/-- **The last byte** of a text ends the loop. -/
theorem readLoopVarint_last (hread : s.readFuint8 = .returns t (UInt8.ofNat v)) (hlt : v < 128)
    (h : result < 2 ^ i) (hbits : result + v * 2 ^ i < 2 ^ bits) :
    ByteArray.readLoopVarint bits s i result (passes + 1) = .returns t (result + v * 2 ^ i) := by
  have hnat : (UInt8.ofNat v).toNat = v := by
    rw [UInt8.toNat_ofNat']
    omega
  rw [ByteArray.readLoopVarint, hread]
  show (if UInt8.ofNat v < 0x80 then _ else _) = _
  rw [if_pos ((byte_lt_0x80 _).mpr (by omega)), hnat, or_shiftLeft_mod h hbits]

/-- **Every other byte** adds its seven low bits to the result. -/
theorem readLoopVarint_next (hread : s.readFuint8 = .returns t (UInt8.ofNat (v % 128 + 128)))
    (h : result < 2 ^ i) (hbits : result + v % 128 * 2 ^ i < 2 ^ bits) :
    ByteArray.readLoopVarint bits s i result (passes + 1) =
      ByteArray.readLoopVarint bits t (i + 7) (result + v % 128 * 2 ^ i) passes := by
  have hnat : (UInt8.ofNat (v % 128 + 128)).toNat = v % 128 + 128 := by
    rw [UInt8.toNat_ofNat']
    omega
  have hlow : (UInt8.ofNat (v % 128 + 128) &&& 0x7f).toNat = v % 128 := by
    rw [byte_and_0x7f, hnat]
    omega
  have hhigh : ¬ UInt8.ofNat (v % 128 + 128) < 0x80 := by
    intro hb
    rw [byte_lt_0x80, hnat] at hb
    omega
  rw [ByteArray.readLoopVarint, hread]
  show (if UInt8.ofNat (v % 128 + 128) < 0x80 then _ else _) = _
  rw [if_neg hhigh, hlow, or_shiftLeft_mod h hbits]

/-- The loop of the readers, at a text whose number does not overflow. -/
theorem Wellformed.readLoopVarint (h : s.Wellformed)
    (hsize : s.position + (varint v).length ≤ s.size)
    (hbytes : slice s.content s.position (varint v).length = varint v) (hresult : result < 2 ^ i)
    (hbits : result + v * 2 ^ i < 2 ^ bits) (hpasses : (varint v).length ≤ passes) :
    ∃ t, ByteArray.readLoopVarint bits s i result passes = .returns t (result + v * 2 ^ i) ∧
      Becomes s t s.content (s.position + (varint v).length) s.size := by
  induction passes generalizing s i result v with
  | zero =>
    have := length_varint_pos v
    omega
  | succ passes ih =>
    rcases Nat.lt_or_ge v 128 with hlt | hge
    · rw [varint_of_lt hlt] at hsize hbytes ⊢
      obtain ⟨t, hread, ht⟩ := h.readFuint8 hsize hbytes
      exact ⟨t, readLoopVarint_last hread hlt hresult hbits, ht⟩
    · rw [varint_of_ge hge, List.length_cons] at hsize hbytes hpasses ⊢
      rw [Nat.add_comm (varint (v / 128)).length 1, slice_add] at hbytes
      have hone : (slice s.content s.position 1).length = 1 := by
        have hle := h.size
        rw [length_slice (by rw [h.length_content]; omega)]
      obtain ⟨hbyte, hrest⟩ := List.append_inj
        (show _ = [UInt8.ofNat (v % 128 + 128)] ++ varint (v / 128) from hbytes) hone
      obtain ⟨t₁, hread, h₁⟩ := h.readFuint8 (by omega) hbyte
      have hrest₁ : slice t₁.content t₁.position (varint (v / 128)).length = varint (v / 128) := by
        rw [h₁.content, h₁.position]
        exact hrest
      -- the number that the remaining bytes stand for is `v / 128`
      have hvalue : result + v % 128 * 2 ^ i + v / 128 * 2 ^ (i + 7) = result + v * 2 ^ i := by
        rw [Nat.add_assoc, low_add_high]
      obtain ⟨t, hloop, ht⟩ := ih h₁.wellformed (by rw [h₁.position, h₁.size]; omega) hrest₁
        (add_low_lt hresult v) (hvalue ▸ hbits) (by omega)
      refine ⟨t, ?_, ?_⟩
      · rw [readLoopVarint_next hread hresult (by omega), hloop, hvalue]
      · have hposition : s.position + ((varint (v / 128)).length + 1) =
            t₁.position + (varint (v / 128)).length := by
          rw [h₁.position]
          omega
        rw [hposition, ← h₁.content, ← h₁.size]
        exact h₁.trans ht

/-! ### The cursor, in any state -/

theorem bind_eq_returns {α β : Type} {o : Outcome α} {f : ByteArray → α → Outcome β} {b : β} :
    o.bind f = .returns t b ↔ ∃ s a, o = .returns s a ∧ f s a = .returns t b := by
  cases o with
  | returns s a =>
    constructor
    · exact fun h => ⟨s, a, rfl, h⟩
    · rintro ⟨s', a', ho, h⟩
      obtain ⟨rfl, rfl⟩ := Outcome.returns.inj ho
      exact h
  | throws s => exact ⟨nofun, nofun⟩
  | faults => exact ⟨nofun, nofun⟩

theorem map_eq_returns {α β : Type} {f : α → β} {o : Outcome α} {b : β} :
    o.map f = .returns t b ↔ ∃ a, o = .returns t a ∧ f a = b := by
  rw [Outcome.map, bind_eq_returns]
  constructor
  · rintro ⟨s, a, ho, h⟩
    obtain ⟨rfl, rfl⟩ := Outcome.returns.inj h
    exact ⟨a, ho, rfl⟩
  · rintro ⟨a, ho, rfl⟩
    exact ⟨t, a, ho, rfl⟩

theorem le_of_readWord {w : ℕ} (h : s.readWord P w = .returns t v) :
    s.position + w ≤ t.position := by
  obtain ⟨t', buf, hread, h⟩ := bind_eq_returns.mp h
  obtain ⟨rfl, -⟩ := Outcome.returns.inj h
  exact le_of_read hread

theorem le_of_readFuint8 {b : UInt8} (h : s.readFuint8 = .returns t b) :
    s.position + 1 ≤ t.position := by
  obtain ⟨buf, hread, -⟩ := map_eq_returns.mp h
  exact le_of_read hread

/-- A number that is read from `k` bytes more is less than `128 ^ k` times as large. -/
theorem le_of_readLoopVarint {j : ℕ} (hresult : result < 128 ^ j)
    (h : readLoopVarint bits s (7 * j) result passes = .returns t n) :
    ∃ k, n < 128 ^ (j + k) ∧ s.position + k ≤ t.position ∧ (0 < passes → 0 < k) := by
  induction passes generalizing s j result with
  | zero =>
    obtain ⟨rfl, rfl⟩ := Outcome.returns.inj h
    exact ⟨0, hresult, le_rfl, fun hpos => absurd hpos (lt_irrefl 0)⟩
  | succ passes ih =>
    obtain ⟨s₁, b, hread, h⟩ := bind_eq_returns.mp h
    have hle := le_of_readFuint8 hread
    -- whatever the byte is, seven bits of it are put above the result
    have hnext (x : ℕ) (hx : x < 128) : result ||| x <<< (7 * j) % 2 ^ bits < 128 ^ (j + 1) := by
      have hpow (m : ℕ) : 128 ^ m = 2 ^ (7 * m) := (Nat.pow_mul 2 7 m).symm
      rw [hpow] at hresult ⊢
      apply Nat.or_lt_two_pow
      · exact hresult.trans_le (Nat.pow_le_pow_right (by norm_num) (by omega))
      · calc x <<< (7 * j) % 2 ^ bits ≤ x <<< (7 * j) := Nat.mod_le _ _
          _ = x * 2 ^ (7 * j) := Nat.shiftLeft_eq _ _
          _ < 2 ^ 7 * 2 ^ (7 * j) := Nat.mul_lt_mul_of_pos_right hx (Nat.two_pow_pos _)
          _ = 2 ^ (7 * (j + 1)) := by rw [← Nat.pow_add]; congr 1; omega
    by_cases hb : b < 0x80
    · rw [if_pos hb] at h
      obtain ⟨rfl, rfl⟩ := Outcome.returns.inj h
      exact ⟨1, hnext _ ((byte_lt_0x80 b).mp hb), hle, fun _ => Nat.one_pos⟩
    · rw [if_neg hb] at h
      have hlow : (b &&& 0x7f).toNat < 128 := by
        rw [byte_and_0x7f]
        exact Nat.mod_lt _ (by norm_num)
      obtain ⟨k, hk, hle', -⟩ := ih (hnext _ hlow) h
      refine ⟨k + 1, ?_, by omega, fun _ => Nat.succ_pos k⟩
      rwa [Nat.add_assoc, Nat.add_comm 1 k] at hk

theorem lt_of_readLoopVarint (hresult : result < 2 ^ bits)
    (h : readLoopVarint bits s i result passes = .returns t n) : n < 2 ^ bits := by
  have hnext (x : ℕ) : result ||| x % 2 ^ bits < 2 ^ bits :=
    Nat.or_lt_two_pow hresult (Nat.mod_lt _ (Nat.two_pow_pos _))
  induction passes generalizing s i result with
  | zero =>
    obtain ⟨-, rfl⟩ := Outcome.returns.inj h
    exact hresult
  | succ passes ih =>
    obtain ⟨s₁, b, -, h⟩ := bind_eq_returns.mp h
    by_cases hb : b < 0x80
    · rw [if_pos hb] at h
      obtain ⟨-, rfl⟩ := Outcome.returns.inj h
      exact hnext _
    · rw [if_neg hb] at h
      exact ih (hnext _) h fun x =>
        Nat.or_lt_two_pow (hnext _) (Nat.mod_lt _ (Nat.two_pow_pos _))

/-- A number is never read from fewer bytes than it is written in. -/
theorem le_of_readVarint (hbits : 0 < bits) (h : s.readVarint bits = .returns t n) :
    s.position + (varint n).length ≤ t.position ∧ n < 2 ^ bits := by
  obtain ⟨k, hk, hle, hpos⟩ := le_of_readLoopVarint (j := 0) Nat.one_pos h
  refine ⟨?_, lt_of_readLoopVarint (Nat.two_pow_pos _) h⟩
  -- the first pass always reads a byte
  obtain ⟨k, rfl⟩ : ∃ m, k = m + 1 := ⟨k - 1, by have := hpos (by omega); omega⟩
  rw [Nat.zero_add] at hk
  have := length_varint_le hk
  omega

end Varint

/-! ### One value -/

/-- The bytes that the typed write of a value hands to `write`. -/
def Typed.bytes (byteOrder endian : Endian) (t : Typed) : List UInt8 :=
  match t.kind.shape with
  | .word w _ => memory byteOrder w (if endian ≠ byteOrder then byteswap w t.number else t.number)
  | .varint _ _ => varint t.number

/-- A word at position `o` does not leave the block in whose middle it begins. -/
def Typed.Aligned (b o : ℕ) (t : Typed) : Prop :=
  match t.kind.shape with
  | .word w _ => o % b = 0 ∨ o % b + w ≤ b
  | .varint _ _ => True

section Value

variable {P : Platform} {s s' : ByteArray} {t : Typed}

theorem length_bytes (byteOrder endian : Endian) (t : Typed) :
    (t.bytes byteOrder endian).length = t.length := by
  unfold Typed.bytes Typed.length
  cases t.kind.shape with
  | word w of => exact length_memory _ _ _
  | varint bits of => rfl

theorem shape_pos (k : Kind) :
    match k.shape with
    | .word w _ => 0 < w
    | .varint bits _ => 0 < bits := by
  cases k <;> exact Nat.succ_pos _

theorem writeTyped_eq_write (t : Typed) :
    s.writeTyped P t = s.write P.fill (t.bytes P.byteOrder s.endian) := by
  have hlt := number_lt t
  have hpos := shape_pos t.kind
  rw [writeTyped_eq, Typed.bytes]
  cases hshape : t.kind.shape with
  | word w of => rfl
  | varint bits of =>
    rw [hshape] at hlt hpos
    show s.writeVarint P ((bits + 6) / 7) t.number = s.write P.fill (varint t.number)
    rw [writeVarint, compress_eq (length_varint_of_lt hpos hlt)]

theorem of_number_word {w : ℕ} {of : ℕ → Typed} (h : t.kind.shape = .word w of) :
    of t.number = t := by
  have hof := of_number t
  rwa [h] at hof

theorem of_number_varint {bits : ℕ} {of : ℕ → Typed} (h : t.kind.shape = .varint bits of) :
    of t.number = t := by
  have hof := of_number t
  rwa [h] at hof

/-- A word that is where its bytes were written to is read back. -/
theorem Wellformed.readWord (h : s.Wellformed) {w v : ℕ} (hv : v < 256 ^ w)
    (hsize : s.position + w ≤ s.size)
    (hbytes : slice s.content s.position w =
      memory P.byteOrder w (if s.endian ≠ P.byteOrder then byteswap w v else v))
    (hfits : s.Fits s.position w) :
    ∃ t, s.readWord P w = .returns t v ∧ Becomes s t s.content (s.position + w) s.size := by
  obtain ⟨t, hread, ht⟩ := h.read_of_fits hsize hfits
  refine ⟨t, ?_, ht⟩
  rw [ByteArray.readWord, hread, hbytes]
  show Outcome.returns t (if t.endian = _ then word _ _ else byteswap w (word _ _)) = _
  rw [ht.endian]
  -- writer and reader swap the bytes in the same case, so the two swaps cancel
  by_cases hsame : s.endian = P.byteOrder
  · rw [if_pos hsame, if_neg (not_not.mpr hsame), word_memory hv]
  · rw [if_neg hsame, if_pos hsame, word_memory (byteswap_lt w v), byteswap_byteswap hv]

theorem Wellformed.readTyped (h : s.Wellformed) (hsize : s.position + t.length ≤ s.size)
    (hbytes : slice s.content s.position t.length = t.bytes P.byteOrder s.endian)
    (haligned : t.Aligned s.baseSize s.position) :
    ∃ s', s.readTyped P t.kind = .returns s' t ∧
      Becomes s s' s.content (s.position + t.length) s.size := by
  have hlt := number_lt t
  have hpos := shape_pos t.kind
  unfold Typed.length at hsize hbytes ⊢
  unfold Typed.bytes at hbytes
  unfold Typed.Aligned at haligned
  rw [readTyped_eq]
  cases hshape : t.kind.shape with
  | word w of =>
    rw [hshape] at hsize hbytes haligned hlt hpos
    simp only at hsize hbytes haligned hlt hpos ⊢
    have hfits : s.Fits s.position w := by
      rw [Fits, if_neg (Nat.pos_iff_ne_zero.mp hpos)]
      exact haligned
    obtain ⟨s', hread, hs'⟩ := h.readWord hlt hsize hbytes hfits
    refine ⟨s', ?_, hs'⟩
    rw [map_eq_returns]
    exact ⟨_, hread, of_number_word hshape⟩
  | varint bits of =>
    rw [hshape] at hsize hbytes hlt hpos
    simp only at hsize hbytes hlt hpos ⊢
    have hvalue : 0 + t.number * 2 ^ 0 = t.number := by omega
    obtain ⟨s', hread, hs'⟩ := h.readLoopVarint hsize hbytes Nat.one_pos
      (show 0 + t.number * 2 ^ 0 < 2 ^ bits by rwa [hvalue]) (length_varint_of_lt hpos hlt)
    rw [hvalue] at hread
    refine ⟨s', ?_, hs'⟩
    rw [map_eq_returns]
    exact ⟨_, hread, of_number_varint hshape⟩

/-- Whatever the state, a read that returns a value moves the cursor at least over the bytes that
the value takes. -/
theorem le_of_readTyped (h : s.readTyped P t.kind = .returns s' t) :
    s.position + t.length ≤ s'.position := by
  have hpos := shape_pos t.kind
  rw [readTyped_eq] at h
  unfold Typed.length
  cases hshape : t.kind.shape with
  | word w of =>
    rw [hshape] at h
    obtain ⟨v, hread, -⟩ := map_eq_returns.mp h
    exact le_of_readWord hread
  | varint bits of =>
    rw [hshape] at h hpos
    obtain ⟨v, hread, hof⟩ := map_eq_returns.mp h
    obtain ⟨hle, hlt⟩ := le_of_readVarint hpos hread
    rwa [number_eq_of_varint hshape hlt hof] at hle

/-- Where a word leaves its block, the cursor is moved too far. -/
theorem Wellformed.lt_of_readTyped (h : s.Wellformed) (hsize : s.position + t.length ≤ s.size)
    (hnot : ¬t.Aligned s.baseSize s.position) {t' : Typed}
    (hread : s.readTyped P t.kind = .returns s' t') : s.position + t.length < s'.position := by
  have hpos := shape_pos t.kind
  unfold Typed.length at hsize ⊢
  unfold Typed.Aligned at hnot
  rw [readTyped_eq] at hread
  cases hshape : t.kind.shape with
  | word w of =>
    rw [hshape] at hsize hnot hread hpos
    simp only [not_or] at hsize hnot hread hpos ⊢
    obtain ⟨v, hword, -⟩ := map_eq_returns.mp hread
    obtain ⟨s₁, buf, hbuf, hs₁⟩ := bind_eq_returns.mp hword
    obtain ⟨rfl, -⟩ := Outcome.returns.inj hs₁
    -- the loop adds the offset in the block, which is not zero
    rw [h.read, if_neg (by omega), if_neg (by omega), if_neg hnot.2] at hbuf
    obtain ⟨rfl, -⟩ := Outcome.returns.inj hbuf
    show _ < s.position + w + s.position % s.baseSize
    omega
  | varint bits of =>
    rw [hshape] at hnot
    exact absurd trivial hnot

end Value

end Muhui.ByteArray
