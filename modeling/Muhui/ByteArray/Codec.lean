/-
  The typed functions of `ByteArray` (`bytearray.cc`): integers of fixed width, variable-length
  integers, floating-point numbers as bit patterns, and strings.

  A word of `w` bytes is a number below `256 ^ w`.  Signed integers are taken modulo two to the
  power of their width, also where the code negates the least one or doubles a large one.
-/
import Muhui.ByteArray.Basic
import Muhui.Encoding.Varint
import Muhui.Encoding.Word

namespace Muhui.ByteArray

/-- What the code is compiled for. -/
structure Platform where
  /-- The contents of the new nodes. -/
  fill : ℕ → ℕ → UInt8
  /-- `MUHUI_BYTE_ORDER`, the order of the bytes of a word in memory. -/
  byteOrder : Endian
  /-- `std::string::max_size()` -/
  maxSize : ℕ

/-- Goes on with what a call returns. -/
def Outcome.bind {α β : Type*} : Outcome α → (ByteArray → α → Outcome β) → Outcome β
  | .returns s a, f => f s a
  | .throws s, _ => .throws s
  | .faults, _ => .faults

def Outcome.map {α β : Type*} (f : α → β) (o : Outcome α) : Outcome β :=
  o.bind fun s a => .returns s (f a)

def setIsLittleEndian (s : ByteArray) (val : Bool) : ByteArray :=
  { s with endian := if val then .little else .big }

/-- The bytes of a word in memory. -/
def memory : Endian → ℕ → ℕ → List UInt8
  | .little, w, v => littleEndian w v
  | .big, w, v => (littleEndian w v).reverse

/-- The word that the bytes are in memory. -/
def word : Endian → List UInt8 → ℕ
  | .little, bs => ofLittleEndian bs
  | .big, bs => ofLittleEndian bs.reverse

variable (P : Platform)

/-! ### Words -/

/-- The writers of words of `w` bytes. -/
def writeWord (s : ByteArray) (w v : ℕ) : Outcome Unit :=
  s.write P.fill (memory P.byteOrder w (if s.endian ≠ P.byteOrder then byteswap w v else v))

/-- The readers of words of `w` bytes (`XX`). -/
def readWord (s : ByteArray) (w : ℕ) : Outcome ℕ :=
  (s.read w).bind fun s buf =>
    let v := word P.byteOrder buf
    .returns s (if s.endian = P.byteOrder then v else byteswap w v)

def writeFint8 (s : ByteArray) (value : Int8) : Outcome Unit := s.write P.fill [value.toUInt8]

def writeFuint8 (s : ByteArray) (value : UInt8) : Outcome Unit := s.write P.fill [value]

def writeFint16 (s : ByteArray) (value : Int16) : Outcome Unit :=
  s.writeWord P 2 value.toUInt16.toNat

def writeFuint16 (s : ByteArray) (value : UInt16) : Outcome Unit := s.writeWord P 2 value.toNat

def writeFint32 (s : ByteArray) (value : Int32) : Outcome Unit :=
  s.writeWord P 4 value.toUInt32.toNat

def writeFuint32 (s : ByteArray) (value : UInt32) : Outcome Unit := s.writeWord P 4 value.toNat

def writeFint64 (s : ByteArray) (value : Int64) : Outcome Unit :=
  s.writeWord P 8 value.toUInt64.toNat

def writeFuint64 (s : ByteArray) (value : UInt64) : Outcome Unit := s.writeWord P 8 value.toNat

def readFint8 (s : ByteArray) : Outcome Int8 := (s.read 1).map fun buf => (buf.headD 0).toInt8

def readFuint8 (s : ByteArray) : Outcome UInt8 := (s.read 1).map fun buf => buf.headD 0

def readFint16 (s : ByteArray) : Outcome Int16 :=
  (s.readWord P 2).map fun v => (UInt16.ofNat v).toInt16

def readFuint16 (s : ByteArray) : Outcome UInt16 := (s.readWord P 2).map UInt16.ofNat

def readFint32 (s : ByteArray) : Outcome Int32 :=
  (s.readWord P 4).map fun v => (UInt32.ofNat v).toInt32

def readFuint32 (s : ByteArray) : Outcome UInt32 := (s.readWord P 4).map UInt32.ofNat

def readFint64 (s : ByteArray) : Outcome Int64 :=
  (s.readWord P 8).map fun v => (UInt64.ofNat v).toInt64

def readFuint64 (s : ByteArray) : Outcome UInt64 := (s.readWord P 8).map UInt64.ofNat

/-- The bits of a `float`. -/
def writeFloat (s : ByteArray) (value : UInt32) : Outcome Unit := s.writeFuint32 P value

/-- The bits of a `double`. -/
def writeDouble (s : ByteArray) (value : UInt64) : Outcome Unit := s.writeFuint64 P value

def readFloat (s : ByteArray) : Outcome UInt32 := s.readFuint32 P

def readDouble (s : ByteArray) : Outcome UInt64 := s.readFuint64 P

/-! ### Variable-length integers -/

def encodeZigzag32 (v : Int32) : UInt32 := if v < 0 then (-v).toUInt32 * 2 - 1 else (v * 2).toUInt32

def decodeZigzag32 (v : UInt32) : Int32 := ((v >>> 1) ^^^ -(v &&& 1)).toInt32

def encodeZigzag64 (v : Int64) : UInt64 := if v < 0 then (-v).toUInt64 * 2 - 1 else (v * 2).toUInt64

def decodeZigzag64 (v : UInt64) : Int64 := ((v >>> 1) ^^^ -(v &&& 1)).toInt64

/-- The loop that fills `tmp`, which has room for `room` more bytes; `none` is a byte behind it. -/
def compress : ℕ → ℕ → Option (List UInt8)
  | 0, _ => none
  | room + 1, value =>
    if 0x80 ≤ value then
      (compress room (value >>> 7)).map (UInt8.ofNat (value &&& 0x7F ||| 0x80) :: ·)
    else some [UInt8.ofNat value]

/-- The writers of unsigned integers, whose `tmp` has `room` bytes. -/
def writeVarint (s : ByteArray) (room value : ℕ) : Outcome Unit :=
  match compress room value with
  | none => .faults
  | some tmp => s.write P.fill tmp

def writeUint32 (s : ByteArray) (value : UInt32) : Outcome Unit := s.writeVarint P 5 value.toNat

def writeInt32 (s : ByteArray) (value : Int32) : Outcome Unit :=
  s.writeUint32 P (encodeZigzag32 value)

def writeUint64 (s : ByteArray) (value : UInt64) : Outcome Unit := s.writeVarint P 10 value.toNat

def writeInt64 (s : ByteArray) (value : Int64) : Outcome Unit :=
  s.writeUint64 P (encodeZigzag64 value)

/-- The loop of the readers of unsigned integers of `bits` bits, which has `passes` passes left. -/
def readLoopVarint (bits : ℕ) : ByteArray → ℕ → ℕ → ℕ → Outcome ℕ
  | s, _, result, 0 => .returns s result
  | s, i, result, passes + 1 =>
    s.readFuint8.bind fun s b =>
      if b < 0x80 then .returns s (result ||| (b.toNat <<< i) % 2 ^ bits)
      else readLoopVarint bits s (i + 7) (result ||| ((b &&& 0x7f).toNat <<< i) % 2 ^ bits) passes

/-- The readers of unsigned integers, with one pass for each of `0, 7, …` below `bits`. -/
def readVarint (s : ByteArray) (bits : ℕ) : Outcome ℕ := readLoopVarint bits s 0 0 ((bits + 6) / 7)

def readUint32 (s : ByteArray) : Outcome UInt32 := (s.readVarint 32).map UInt32.ofNat

def readInt32 (s : ByteArray) : Outcome Int32 := s.readUint32.map decodeZigzag32

def readUint64 (s : ByteArray) : Outcome UInt64 := (s.readVarint 64).map UInt64.ofNat

def readInt64 (s : ByteArray) : Outcome Int64 := s.readUint64.map decodeZigzag64

/-! ### Strings -/

/-- `std::length_error` -/
inductive LengthError
  | lengthError
  deriving DecidableEq

/-- A string of `len` bytes; `resize` throws where a string cannot be as long. -/
def readStringOf (s : ByteArray) (len : ℕ) : Outcome (Except LengthError (List UInt8)) :=
  if P.maxSize < len then .returns s (.error .lengthError) else (s.read len).map .ok

def writeStringF16 (s : ByteArray) (value : List UInt8) : Outcome Unit :=
  (s.writeFuint16 P (UInt16.ofNat value.length)).bind fun s _ => s.write P.fill value

def writeStringF32 (s : ByteArray) (value : List UInt8) : Outcome Unit :=
  (s.writeFuint32 P (UInt32.ofNat value.length)).bind fun s _ => s.write P.fill value

def writeStringF64 (s : ByteArray) (value : List UInt8) : Outcome Unit :=
  (s.writeFuint64 P (UInt64.ofNat value.length)).bind fun s _ => s.write P.fill value

def writeStringVint (s : ByteArray) (value : List UInt8) : Outcome Unit :=
  (s.writeUint64 P (UInt64.ofNat value.length)).bind fun s _ => s.write P.fill value

def writeStringWithoutLength (s : ByteArray) (value : List UInt8) : Outcome Unit :=
  s.write P.fill value

def readStringF16 (s : ByteArray) : Outcome (Except LengthError (List UInt8)) :=
  (s.readFuint16 P).bind fun s len => s.readStringOf P len.toNat

def readStringF32 (s : ByteArray) : Outcome (Except LengthError (List UInt8)) :=
  (s.readFuint32 P).bind fun s len => s.readStringOf P len.toNat

def readStringF64 (s : ByteArray) : Outcome (Except LengthError (List UInt8)) :=
  (s.readFuint64 P).bind fun s len => s.readStringOf P len.toNat

/-- The length is read as `readStringF64` reads it. -/
def readStringVint (s : ByteArray) : Outcome (Except LengthError (List UInt8)) :=
  (s.readFuint64 P).bind fun s len => s.readStringOf P len.toNat

/-! ### Typed values -/

/-- A value of one of the integer and floating-point types. -/
inductive Typed
  | fint8 (v : Int8) | fuint8 (v : UInt8) | fint16 (v : Int16) | fuint16 (v : UInt16)
  | fint32 (v : Int32) | fuint32 (v : UInt32) | fint64 (v : Int64) | fuint64 (v : UInt64)
  | int32 (v : Int32) | uint32 (v : UInt32) | int64 (v : Int64) | uint64 (v : UInt64)
  | float (v : UInt32) | double (v : UInt64)
  deriving DecidableEq

/-- The types. -/
inductive Kind
  | fint8 | fuint8 | fint16 | fuint16 | fint32 | fuint32 | fint64 | fuint64
  | int32 | uint32 | int64 | uint64 | float | double
  deriving DecidableEq

def Typed.kind : Typed → Kind
  | .fint8 _ => .fint8 | .fuint8 _ => .fuint8 | .fint16 _ => .fint16 | .fuint16 _ => .fuint16
  | .fint32 _ => .fint32 | .fuint32 _ => .fuint32 | .fint64 _ => .fint64 | .fuint64 _ => .fuint64
  | .int32 _ => .int32 | .uint32 _ => .uint32 | .int64 _ => .int64 | .uint64 _ => .uint64
  | .float _ => .float | .double _ => .double

/-- The typed write of a value. -/
def writeTyped (s : ByteArray) : Typed → Outcome Unit
  | .fint8 v => s.writeFint8 P v
  | .fuint8 v => s.writeFuint8 P v
  | .fint16 v => s.writeFint16 P v
  | .fuint16 v => s.writeFuint16 P v
  | .fint32 v => s.writeFint32 P v
  | .fuint32 v => s.writeFuint32 P v
  | .fint64 v => s.writeFint64 P v
  | .fuint64 v => s.writeFuint64 P v
  | .int32 v => s.writeInt32 P v
  | .uint32 v => s.writeUint32 P v
  | .int64 v => s.writeInt64 P v
  | .uint64 v => s.writeUint64 P v
  | .float v => s.writeFloat P v
  | .double v => s.writeDouble P v

/-- The typed read of a type. -/
def readTyped (s : ByteArray) : Kind → Outcome Typed
  | .fint8 => s.readFint8.map .fint8
  | .fuint8 => s.readFuint8.map .fuint8
  | .fint16 => (s.readFint16 P).map .fint16
  | .fuint16 => (s.readFuint16 P).map .fuint16
  | .fint32 => (s.readFint32 P).map .fint32
  | .fuint32 => (s.readFuint32 P).map .fuint32
  | .fint64 => (s.readFint64 P).map .fint64
  | .fuint64 => (s.readFuint64 P).map .fuint64
  | .int32 => s.readInt32.map .int32
  | .uint32 => s.readUint32.map .uint32
  | .int64 => s.readInt64.map .int64
  | .uint64 => s.readUint64.map .uint64
  | .float => (s.readFloat P).map .float
  | .double => (s.readDouble P).map .double

def writeAll (s : ByteArray) : List Typed → Outcome Unit
  | [] => .returns s ()
  | t :: ts => (s.writeTyped P t).bind fun s _ => s.writeAll ts

/-- The matching reads. -/
def readAll (s : ByteArray) : List Kind → Outcome (List Typed)
  | [] => .returns s []
  | k :: ks => (s.readTyped P k).bind fun s t => (s.readAll ks).map (t :: ·)

end Muhui.ByteArray
