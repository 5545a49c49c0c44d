/-
  `HttpSession::recvRequest` on a stream of reads.

  A socket is the list of byte strings that arrive, in order; `none` is a read that fails and the
  end of the list is the end of the stream.  A read hands out what has arrived, but never more than
  it was asked for; the rest stays in the socket.  The request buffer lives as long as the call:
  what the heap holds there at the beginning, and the register the parser does not initialise, are
  parameters of the call.
-/
import Muhui.Http.RequestParser

namespace Muhui.Http

/-- What is still to be read. -/
abbrev Socket := List (Option Bytes)

/-- `SocketStream::read(buffer, n)`; `none` is a negative result. -/
def read (n : ℕ) : Socket → Option Bytes × Socket
  | [] => (some [], [])
  | none :: s => (none, s)
  | some c :: s => if c.length ≤ n then (some c, s) else (some (c.take n), some (c.drop n) :: s)

/-- The contents of memory nobody has written yet. -/
structure Uninit where
  heap : Bytes
  queryStart : ℕ

/-- How a call of `recvRequest` ends: with a request, with the session closed and a null pointer,
with an exception, or not at all. -/
inductive Outcome
  | request (r : HttpRequest) | closed | threw | spins
  deriving DecidableEq

/-- `Stream::readFixSize` for `left` bytes; `none` stands for its failures, a result that is not
positive.  The first argument bounds the number of reads, each of which returns a byte. -/
def readFixSize : ℕ → ℕ → Socket → Option Bytes × Socket
  | _, 0, s => (some [], s)
  | 0, _ + 1, s => (none, s)
  | reads + 1, left + 1, s =>
    match read (left + 1) s with
    | (none, s) => (none, s)
    | (some c, s) =>
      if c = [] then (none, s)
      else
        let r := readFixSize reads (left + 1 - c.length) s
        (r.1.map (c ++ ·), r.2)

section Session

variable (T : RequestTable) (buffSize : ℕ)

/-- The loop that parses the header section; the first argument bounds the number of reads.  At the
end of the stream every further read returns 0 bytes, nothing changes any more and the loop never
ends. -/
def recvHeader : ℕ → HttpRequestParser T → Bytes → ℕ → Socket →
    Except Outcome (HttpRequestParser T × Bytes × ℕ) × Socket
  | 0, _, _, _, socket => (.error .spins, socket)
  | reads + 1, parser, data, offset, socket =>
    match read (buffSize - offset) socket with
    | (none, socket) => (.error .closed, socket)
    | (some c, socket) =>
      let length := offset + c.length
      match parser.execute (data.take offset ++ c ++ data.drop length) length with
      | none => (.error .threw, socket)
      | some (nparser, parser, data) =>
        if parser.hasError then (.error .closed, socket)
        else if ((length - nparser : ℕ) : ℤ) = toInt buffSize then (.error .closed, socket)
        else if parser.isFinished ≠ 0 then (.ok (parser, data, length - nparser), socket)
        else recvHeader reads parser data (length - nparser) socket

/-- The part of `recvRequest` behind the header section: `offset` bytes of the stream are already at
the front of `data`. -/
def recvBody (parser : HttpRequestParser T) (data : Bytes) (offset : ℕ) (socket : Socket) :
    Outcome × Socket :=
  let length := toInt parser.getcontentLength
  if 0 < length then
    let head := if (offset : ℤ) ≤ length then data.take offset else data.take length.toNat
    if 0 < length - offset then
      match readFixSize (length - offset).toNat (length - offset).toNat socket with
      | (none, socket) => (.closed, socket)
      | (some tail, socket) => (.request (parser.data.message.setBody (head ++ tail)), socket)
    else (.request (parser.data.message.setBody head), socket)
  else (.request parser.data.message, socket)

/-- `HttpSession::recvRequest`.  There is at most one useful read for each byte and for each
arrival, so running out of reads means that the loop does not end. -/
def recvRequest (mem : Uninit) (socket : Socket) : Outcome × Socket :=
  let reads := (socket.map fun c => (c.getD []).length).sum + socket.length + 1
  match recvHeader T buffSize reads (.new T mem.queryStart) mem.heap 0 socket with
  | (.error o, socket) => (o, socket)
  | (.ok (parser, data, offset), socket) => recvBody T parser data offset socket

/-- The requests that up to `n` successive calls on one session return, up to the first call that
does not return one; `mem` is what each call finds in uninitialised memory. -/
def serve : ℕ → (ℕ → Uninit) → Socket → List HttpRequest
  | 0, _, _ => []
  | n + 1, mem, socket =>
    match recvRequest T buffSize (mem 0) socket with
    | (.request r, socket) => r :: serve n (fun i => mem (i + 1)) socket
    | _ => []

end Session

/-- One round of the header loop when nothing is left over from the rounds before. -/
theorem recvHeader_zero {T : RequestTable} {buffSize : ℕ} {parser : HttpRequestParser T}
    {data c : Bytes} {reads : ℕ} {s s' : Socket} (hread : read buffSize s = (some c, s')) :
    recvHeader T buffSize (reads + 1) parser data 0 s =
      match parser.execute (c ++ data.drop c.length) c.length with
      | none => (.error .threw, s')
      | some (nparser, parser, data) =>
        if parser.hasError then (.error .closed, s')
        else if ((c.length - nparser : ℕ) : ℤ) = toInt buffSize then (.error .closed, s')
        else if parser.isFinished ≠ 0 then (.ok (parser, data, c.length - nparser), s')
        else recvHeader T buffSize reads parser data (c.length - nparser) s' := by
  rw [recvHeader, Nat.sub_zero, hread]
  simp only [Nat.zero_add, List.take_zero, List.nil_append]

/-- The rule of the header loop: what every call of `execute` keeps about the parser, the buffer and
the bytes that are left over in it, the loop keeps. -/
theorem recvHeader_rule {T : RequestTable} {buffSize : ℕ}
    {P : HttpRequestParser T → Bytes → ℕ → Prop}
    (hexecute : ∀ parser data offset (c : Bytes) n parser' data', P parser data offset →
      parser.execute (data.take offset ++ c ++ data.drop (offset + c.length)) (offset + c.length) =
        some (n, parser', data') → P parser' data' (offset + c.length - n))
    {reads : ℕ} {parser parser' : HttpRequestParser T} {data data' : Bytes} {offset offset' : ℕ}
    {s s' : Socket}
    (h : recvHeader T buffSize reads parser data offset s = (.ok (parser', data', offset'), s'))
    (hkept : P parser data offset) : P parser' data' offset' := by
  induction reads generalizing parser data offset s with
  | zero =>
    rw [recvHeader] at h
    cases h
  | succ reads ih =>
    rw [recvHeader] at h
    rcases hread : read (buffSize - offset) s with ⟨_ | c, t⟩
    · rw [hread] at h
      cases h
    rw [hread] at h
    simp only at h
    cases hexec : parser.execute (data.take offset ++ c ++ data.drop (offset + c.length))
        (offset + c.length) with
    | none =>
      rw [hexec] at h
      cases h
    | some r =>
      obtain ⟨n, p, d⟩ := r
      have hnext : P p d (offset + c.length - n) := hexecute _ _ _ _ _ _ _ hkept hexec
      rw [hexec] at h
      simp only at h
      split_ifs at h with herror hfull hfinished
      · cases h
      · cases h
      · simp only [Prod.mk.injEq, Except.ok.injEq] at h
        obtain ⟨⟨rfl, rfl, rfl⟩, -⟩ := h
        exact hnext
      · exact ih h hnext

end Muhui.Http
