/-
  The response parser: the actions of the generated scanner, the callbacks behind them, and
  `HttpResponceParser::execute`.

  As for requests, the transition table of the generated scanner is a parameter and what the
  actions do is translated here.  The scanner's own record of the framing (`chunked`, `close`,
  `status`, `content_len`) is read by the connection and not by the parser, so the actions that
  only write to it change nothing, and neither do the empty callbacks for chunks.  A response has
  no query, and the register for it stays as it is.
-/
import Muhui.Http.RequestParser

namespace Muhui.Http

open Scanner

/-- The actions of the generated response scanner. -/
inductive ResponceAction
  | mark | startField | writeField | startValue | writeValue
  | reasonPhrase | statusCode | httpVersion | done
  | writeContentLen | writeConnectionClose | chunkSize | transChunked
  deriving DecidableEq

/-- `fbreak` leaves the scanner behind the byte. -/
def ResponceAction.stops (a : ResponceAction) : Bool := decide (a = .done)

abbrev ResponceData := ParserData HttpResponce

/-! ### The callbacks -/

section Callbacks

variable (buffer : Bytes) (s : ResponceData)

def onResponseReason (at_ length : ℕ) : Option ResponceData :=
  (stringAt buffer at_ length).map fun v => { s with message := s.message.setReason v }

/-- The status is read from the mark on, up to the first byte that is not a digit. -/
def onResponseStatus (at_ : ℕ) : ResponceData :=
  { s with message := s.message.setStatus (atoi (buffer.drop at_)) }

def onResponseVersion (at_ length : ℕ) : ResponceData :=
  if strncmpEq (buffer.drop at_) (bytes "HTTP/1.1") length then
    { s with message := s.message.setVersion 0x11 }
  else if strncmpEq (buffer.drop at_) (bytes "HTTp/1.0") length then
    { s with message := s.message.setVersion 0x10 }
  else { s with error := 1001 }

def onResponseHttpField (field flen value vlen : ℕ) : Option ResponceData :=
  onHttpField HttpResponce.setHeader buffer s field flen value vlen

/-- What an action does at position `fpc`. -/
def ResponceAction.act (fpc : ℕ) : ResponceAction → ResponceData → Option ResponceData
  | .mark, s => some { s with mark := fpc }
  | .startField, s => some { s with fieldStart := fpc }
  | .writeField, s => some { s with fieldLen := len s.fieldStart fpc }
  | .startValue, s => some { s with mark := fpc }
  | .writeValue, s =>
    onResponseHttpField buffer s s.fieldStart s.fieldLen s.mark (len s.mark fpc)
  | .reasonPhrase, s => onResponseReason buffer s s.mark (len s.mark fpc)
  | .statusCode, s => some (onResponseStatus buffer s s.mark)
  | .httpVersion, s => some (onResponseVersion buffer s s.mark (len s.mark fpc))
  | .done, s | .writeContentLen, s | .writeConnectionClose, s | .chunkSize, s
  | .transChunked, s => some s

/-- Each action sets the register it is named after, if any, and none touches the body. -/
theorem ResponceAction.step {buffer : Bytes} {p : ℕ} {a : ResponceAction} {s s' : ResponceData}
    (h : a.act buffer p s = some s') : ActionStep HttpResponce.body p s s' := by
  cases a <;> simp only [ResponceAction.act, Option.some.injEq] at h
  case mark | startValue => exact h ▸ .registers ⟨.inr rfl, .inl rfl, .inl rfl⟩ rfl rfl
  case startField => exact h ▸ .registers ⟨.inl rfl, .inr rfl, .inl rfl⟩ rfl rfl
  case writeField => exact h ▸ .registers ⟨.inl rfl, .inl rfl, .inr rfl⟩ rfl rfl
  case writeValue =>
    unfold onResponseHttpField at h
    apply actionStep_onHttpField _ h
    intro m f v
    rfl
  case reasonPhrase =>
    obtain ⟨v, -, rfl⟩ := Option.map_eq_some_iff.mp h
    exact .report rfl
  case httpVersion =>
    unfold onResponseVersion at h
    split_ifs at h
    · exact h ▸ .report rfl
    · exact h ▸ .report rfl
    · exact h ▸ .fail (Nat.succ_ne_zero 1000)
  all_goals exact h ▸ .report rfl

end Callbacks

/-! ### The parser -/

/-- The table of the generated response scanner; only its first final state counts as final. -/
abbrev ResponceTable := Automaton ResponceAction

/-- `HttpResponceParser`: the state `cs` and the data. -/
structure HttpResponceParser (T : ResponceTable) where
  cs : T.State
  data : ResponceData

namespace HttpResponceParser

variable {T : ResponceTable}

/-- The constructor. -/
def new (T : ResponceTable) : HttpResponceParser T := { cs := T.start, data := .init {} 0 }

/-- What `httpclient_parser_execute` does to the registers on entry. -/
def reset (s : ResponceData) : ResponceData := { s with mark := 0, fieldLen := 0, fieldStart := 0 }

/-- `httpclient_parser_init`. -/
def init (parser : HttpResponceParser T) : HttpResponceParser T :=
  { cs := T.start, data := reset parser.data }

/-- `httpclient_parser_execute(&m_parser, buffer, len, 0)`: the number of bytes it consumed, or -1.
It asserts that the text ends with NUL and that its length is the same as an `int`. -/
def httpclientParserExecute (parser : HttpResponceParser T) (buffer : Bytes) (length : ℕ) :
    Option (ℤ × HttpResponceParser T) :=
  if (buffer.drop length).headD 0 ≠ 0 ∨ toInt length ≠ length then none
  else
    (scan T (ResponceAction.act buffer) ResponceAction.stops (buffer.take length) 0 parser.cs
      (reset parser.data)).map fun r =>
        let checked := r.2.2.mark < length ∧ r.2.2.fieldLen ≤ length ∧ r.2.2.fieldStart < length
        (if checked then (r.1 : ℤ) else -1, { cs := r.2.1, data := r.2.2 })

/-- `execute(data, len, chunck)`: parses and moves what is left of the `len` bytes to the front of
the buffer.  With -1 the move would begin in front of the buffer. -/
def execute (parser : HttpResponceParser T) (data : Bytes) (length : ℕ) (chunck : Bool) :
    Option (ℕ × HttpResponceParser T × Bytes) :=
  let parser := if chunck then parser.init else parser
  match parser.httpclientParserExecute data length with
  | none => none
  | some (offset, parser) =>
    if offset < 0 then none
    else
      let rest := (data.take length).drop offset.toNat
      some (offset.toNat, parser, rest ++ data.drop rest.length)

def hasError (parser : HttpResponceParser T) : Bool :=
  decide (parser.data.error ≠ 0) || decide (parser.cs = T.error)

def isFinished (parser : HttpResponceParser T) : ℤ :=
  if parser.cs = T.error then -1 else if T.isFinal parser.cs then 1 else 0

def getcontentLength (parser : HttpResponceParser T) : ℕ :=
  parser.data.message.headers.getAs (bytes "content-length") 0

end HttpResponceParser

end Muhui.Http
