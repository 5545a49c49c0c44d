/-
  `ByteArray` (`bytearray.cc`): a byte stream with one cursor over a list of memory blocks.

  A pointer to a node is its number in the list from `m_root` on, and a loop that follows `next` is
  a recursion over the rest of the list: at its end the pointer is null.  What a new block contains
  is not determined; `fill` gives the contents of each block, in the order of their allocation.

  The number of new blocks, `ceil` of a quotient of `double`s, is the exact one here.
-/
import Muhui.Container.Blocks

namespace Muhui

/-- The contents of a `Node`. -/
abbrev Block := List UInt8

/-- `m_endian` -/
inductive Endian
  | little
  | big
  deriving DecidableEq

structure ByteArray where
  baseSize : ℕ
  position : ℕ
  capacity : ℕ
  size : ℕ
  endian : Endian
  /-- The nodes from `m_root` on. -/
  nodes : List Block
  /-- `m_cur`, which may be null. -/
  cur : Option ℕ
  /-- The nodes that have been allocated. -/
  made : ℕ
  deriving DecidableEq

/-- The difference of two `size_t`. -/
def sub64 (a b : ℕ) : ℕ := if b ≤ a then a - b else a + 2 ^ 64 - b

theorem sub64_of_le {a b : ℕ} (h : b ≤ a) : sub64 a b = a - b := if_pos h

namespace ByteArray

/-- How a call ends: `throws` is `std::out_of_range`, and `faults` an access through a null pointer
or outside of a node. -/
inductive Outcome (α : Type*)
  | returns (s : ByteArray) (a : α)
  | throws (s : ByteArray)
  | faults
  deriving DecidableEq

/-- An `iovec` that the `ByteArray` hands out: a part of a node. -/
structure Iovec where
  node : ℕ
  offset : ℕ
  len : ℕ
  deriving DecidableEq

variable (fill : ℕ → ℕ → UInt8)

/-- The contents of the next `count` new nodes. -/
def newNodes (b made count : ℕ) : List Block :=
  (List.range count).map fun i => (List.range b).map (fill (made + i))

/-- `ByteArray(base_size)` -/
def init (base_size : ℕ) : ByteArray :=
  { baseSize := base_size
    position := 0
    capacity := base_size
    size := 0
    endian := .big
    nodes := newNodes fill base_size 0 1
    cur := some 0
    made := 1 }

def getReadSize (s : ByteArray) : ℕ := sub64 s.size s.position

def getCapacity (s : ByteArray) : ℕ := sub64 s.capacity s.position

/-- `next` of node `c`, before the nodes `rest`. -/
def nextNode (c : ℕ) (rest : List Block) : Option ℕ := if rest.isEmpty then none else some (c + 1)

def addCapacity (s : ByteArray) (size : ℕ) : ByteArray :=
  if size = 0 then s
  else
    let old_cap := s.getCapacity
    if size ≤ old_cap then s
    else
      let count := (size - old_cap + (s.baseSize - 1)) / s.baseSize
      { s with
        capacity := s.capacity + count * s.baseSize
        nodes := s.nodes ++ newNodes fill s.baseSize s.made count
        cur := if old_cap = 0 then some s.nodes.length else s.cur
        made := s.made + count }

/-! ### Writing -/

/-- The loop of `write` from node `c` on. It ends with the nodes, `m_cur` and `m_position`. -/
def writeLoop : List Block → ℕ → ℕ → ℕ → List UInt8 → Option (List Block × Option ℕ × ℕ)
  | [], _, _, _, _ => none
  | node :: rest, c, npos, position, buf =>
    let ncap := node.length - npos
    if buf.length ≤ ncap then
      some (overwrite node npos buf :: rest,
        if node.length = npos + buf.length then nextNode c rest else some c,
        position + buf.length)
    else
      (writeLoop rest (c + 1) 0 (position + ncap) (buf.drop ncap)).map fun r =>
        (overwrite node npos (buf.take ncap) :: r.1, r.2)

def write (s : ByteArray) (buf : List UInt8) : Outcome Unit :=
  if buf.length = 0 then .returns s ()
  else
    let s := s.addCapacity fill buf.length
    match s.cur with
    | none => .faults
    | some c =>
      match writeLoop (s.nodes.drop c) c (s.position % s.baseSize) s.position buf with
      | none => .faults
      | some (nodes, cur, position) =>
        .returns
          { s with
            nodes := s.nodes.take c ++ nodes
            cur := cur
            position := position
            size := if s.size < position then position else s.size } ()

def clear (s : ByteArray) : ByteArray :=
  { s with
    position := 0
    size := 0
    capacity := s.baseSize
    nodes := s.nodes.take 1
    cur := some 0 }

/-- The loop of `setPosition` from node `c` on, which ends with `m_cur`. -/
def seekLoop : List Block → ℕ → ℕ → Option (Option ℕ)
  | [], _, _ => none
  | node :: rest, c, v =>
    if node.length < v then seekLoop rest (c + 1) (v - node.length)
    else some (if v = node.length then nextNode c rest else some c)

def setPosition (s : ByteArray) (v : ℕ) : Outcome Unit :=
  if s.capacity < v then .throws s
  else
    match seekLoop s.nodes 0 v with
    | none => .faults
    | some cur =>
      .returns { s with position := v, size := if s.size < v then v else s.size, cur := cur } ()

/-! ### Reading -/

/-- The loop of `read` from node `c` on. It ends with the bytes, `m_cur` and `m_position`, which is
moved by `npos` more where the range leaves its first node. -/
def readLoop : List Block → ℕ → ℕ → ℕ → ℕ → Option (List UInt8 × Option ℕ × ℕ)
  | _, c, _, position, 0 => some ([], some c, position)
  | [], _, _, _, _ + 1 => none
  | node :: rest, c, npos, position, size + 1 =>
    let ncap := node.length - npos
    if size + 1 ≤ ncap then
      some (slice node npos (size + 1),
        if node.length = npos + (size + 1) then nextNode c rest else some c,
        position + (size + 1))
    else
      (readLoop rest (c + 1) 0 (position + ncap + npos) (size + 1 - ncap)).map fun r =>
        (slice node npos ncap ++ r.1, r.2)

/-- `read(buf, size)` -/
def read (s : ByteArray) (size : ℕ) : Outcome (List UInt8) :=
  if s.getReadSize < size then .throws s
  else
    match s.cur with
    | none => .faults
    | some c =>
      match readLoop (s.nodes.drop c) c (s.position % s.baseSize) s.position size with
      | none => .faults
      | some (buf, cur, position) => .returns { s with cur := cur, position := position } buf

/-- The loop of `read(buf, size, position)`. -/
def copyLoop : List Block → ℕ → ℕ → Option (List UInt8)
  | _, _, 0 => some []
  | [], _, _ + 1 => none
  | node :: rest, npos, size + 1 =>
    let ncap := node.length - npos
    if size + 1 ≤ ncap then some (slice node npos (size + 1))
    else (copyLoop rest 0 (size + 1 - ncap)).map fun buf => slice node npos ncap ++ buf

/-- `read(buf, size, position)`, which begins at `m_cur` whatever the position is. -/
def readAt (s : ByteArray) (size position : ℕ) : Outcome (List UInt8) :=
  if sub64 s.size position < size then .throws s
  else
    match s.cur with
    | none => .faults
    | some c =>
      match copyLoop (s.nodes.drop c) (position % s.baseSize) size with
      | none => .faults
      | some buf => .returns s buf

def toString (s : ByteArray) : Outcome (List UInt8) :=
  if s.getReadSize = 0 then .returns s [] else s.readAt s.getReadSize s.position

/-! ### Buffers -/

/-- The part of node `c` that `getReadBuffers` hands out, `size` bytes being asked for. Where they
do not fit, it looks at the next node, but does not go on with it. -/
def readVector (s : ByteArray) (c npos ncap size : ℕ) : Outcome (ℕ × List Iovec) :=
  if size ≤ ncap then .returns s (size, [⟨c, npos, size⟩])
  else if c + 1 < s.nodes.length then .returns s (size, [⟨c, npos, ncap⟩])
  else .faults

/-- `getReadBuffers(buffers, len)`, with the `iovec`s that are appended. -/
def getReadBuffers (s : ByteArray) (len : ℕ) : Outcome (ℕ × List Iovec) :=
  let size := if s.getReadSize < len then s.getReadSize else len
  if size = 0 then .returns s (0, [])
  else
    match s.cur.bind fun c => s.nodes[c]?.map fun node => (c, node) with
    | none => .faults
    | some (c, node) =>
      let npos := s.position % s.baseSize
      s.readVector c npos (node.length - npos) size

/-- `getReadBuffers(buffers, len, position)`: the node is that of the position, but the room in it
is computed from `m_cur`, and the length is cut to the bytes behind the cursor. -/
def getReadBuffersAt (s : ByteArray) (len position : ℕ) : Outcome (ℕ × List Iovec) :=
  let size := if s.getReadSize < len then s.getReadSize else len
  if size = 0 then .returns s (0, [])
  else
    let npos := position % s.baseSize
    let count := position / s.baseSize
    match s.cur.bind fun c => s.nodes[c]? with
    | none => .faults
    | some node =>
      if count < s.nodes.length then s.readVector count npos (node.length - npos) size else .faults

/-- The loop of `getWriteBuffers`: the lengths follow the nodes, the addresses stay in node `c`. -/
def writeVectors (c : ℕ) : List Block → ℕ → ℕ → Option (List Iovec)
  | _, _, 0 => some []
  | [], _, _ + 1 => none
  | node :: rest, npos, len + 1 =>
    let ncap := node.length - npos
    if len + 1 ≤ ncap then some [⟨c, npos, len + 1⟩]
    else (writeVectors c rest 0 (len + 1 - ncap)).map fun iovs => ⟨c, npos, ncap⟩ :: iovs

/-- `getWriteBuffers(buffers, len)` -/
def getWriteBuffers (s : ByteArray) (len : ℕ) : Outcome (ℕ × List Iovec) :=
  if len = 0 then .returns s (0, [])
  else
    let s := s.addCapacity fill len
    match s.cur with
    | none => .faults
    | some c =>
      match writeVectors c (s.nodes.drop c) (s.position % s.baseSize) len with
      | none => .faults
      | some iovs => .returns s (len, iovs)

end ByteArray

end Muhui
