/-
  The request parser: the actions of the generated scanner, the callbacks behind them, and
  `HttpRequestParser::execute`.

  The transition table of the generated scanner is a parameter (`Automaton RequestAction`); what the
  actions do is translated here.  `mark`, `field_start` and `query_start` are offsets into the
  buffer of the current call.  `http_parser_execute` resets all registers except `query_start`, and
  its callbacks are handed `buffer + mark` as a pointer, so they see the whole rest of the buffer
  and not only the token: `buffer` is therefore the full buffer, also behind the received bytes.
-/
import Muhui.Http.Message
import Muhui.Scanner.Basic

namespace Muhui.Http

open Scanner

/-- The actions of the generated request scanner. -/
inductive RequestAction
  | mark | startField | writeField | startValue | writeValue
  | requestMethod | requestUri | fragment | startQuery | queryString | httpVersion | requestPath
  | done | xml | json
  deriving DecidableEq

/-- `fbreak` leaves the scanner behind the byte. -/
def RequestAction.stops (a : RequestAction) : Bool := decide (a = .done)

/-- The registers of a generated scanner, the message that is filled in, and `m_error`. -/
structure ParserData (M : Type) where
  mark : ℕ
  fieldStart : ℕ
  fieldLen : ℕ
  queryStart : ℕ
  message : M
  error : ℕ
  deriving DecidableEq

/-- The registers as `init` leaves them; `queryStart` is not initialised. -/
def ParserData.init {M : Type} (message : M) (queryStart : ℕ) : ParserData M :=
  { mark := 0, fieldStart := 0, fieldLen := 0, queryStart, message, error := 0 }

abbrev RequestData := ParserData HttpRequest

/-- `LEN(AT, FPC)`, a difference of `size_t`. -/
def len (at_ fpc : ℕ) : ℕ := (fpc + 2 ^ 64 - at_) % 2 ^ 64

/-- `std::string(buffer + at, length)`; it throws `length_error` on a length that wrapped around. -/
def stringAt (buffer : Bytes) (at_ length : ℕ) : Option Bytes :=
  if length < 2 ^ 63 then some ((buffer.drop at_).take length) else none

theorem add_len_le {m p : ℕ} (hm : m ≤ p) : m + len m p ≤ p := by
  have hsub : p + 2 ^ 64 - m = p - m + 2 ^ 64 := by omega
  have hmod : (p - m) % 2 ^ 64 ≤ p - m := Nat.mod_le _ _
  rw [len, hsub, Nat.add_mod_right]
  omega

/-! ### Headers -/

/-- The header callback of both parsers; a header without a name is dropped. -/
def onHttpField {M : Type} (setHeader : M → Bytes → Bytes → M) (buffer : Bytes) (s : ParserData M)
    (field flen value vlen : ℕ) : Option (ParserData M) :=
  if flen = 0 then some s
  else
    (stringAt buffer field flen).bind fun f =>
      (stringAt buffer value vlen).map fun v => { s with message := setHeader s.message f v }

/-! ### Registers -/

/-- What an action at position `p` may do to the registers. -/
structure RegisterStep {M : Type} (p : ℕ) (s s' : ParserData M) : Prop where
  mark : s'.mark = s.mark ∨ s'.mark = p
  fieldStart : s'.fieldStart = s.fieldStart ∨ s'.fieldStart = p
  fieldLen : s'.fieldLen = s.fieldLen ∨ s'.fieldLen = len s.fieldStart p

/-- What an action at position `p` may do: set registers, report a token to the message without
touching the part `key` of it, and set the error, which no action clears. -/
structure ActionStep {M K : Type} (key : M → K) (p : ℕ) (s s' : ParserData M) : Prop
    extends RegisterStep p s s' where
  key_eq : key s'.message = key s.message
  error_back : s'.error = 0 → s.error = 0

theorem ActionStep.report {M K : Type} {key : M → K} {p : ℕ} {s : ParserData M} {message : M}
    (h : key message = key s.message) : ActionStep key p s { s with message } where
  mark := .inl rfl
  fieldStart := .inl rfl
  fieldLen := .inl rfl
  key_eq := h
  error_back := id

theorem ActionStep.fail {M K : Type} {key : M → K} {p error : ℕ} {s : ParserData M}
    (h : error ≠ 0) : ActionStep key p s { s with error } where
  mark := .inl rfl
  fieldStart := .inl rfl
  fieldLen := .inl rfl
  key_eq := rfl
  error_back h0 := absurd h0 h

/-- An action that only sets registers. -/
theorem ActionStep.registers {M K : Type} {key : M → K} {p : ℕ} {s s' : ParserData M}
    (h : RegisterStep p s s') (hmessage : s'.message = s.message) (herror : s'.error = s.error) :
    ActionStep key p s s' where
  toRegisterStep := h
  key_eq := congrArg key hmessage
  error_back h0 := herror.symm.trans h0

/-- The registers stay inside the buffer. -/
theorem registers_of_scan {M α : Type} {A : Automaton α}
    {act : ℕ → α → ParserData M → Option (ParserData M)} {stops : α → Bool}
    (hact : ∀ p a s s', act p a s = some s' → RegisterStep p s s') {bs : Bytes} (hbs : bs ≠ [])
    {p' : ℕ} {q q' : A.State} {s s' : ParserData M}
    (h : scan A act stops bs 0 q s = some (p', q', s'))
    (hs : s.mark = 0 ∧ s.fieldLen = 0 ∧ s.fieldStart = 0) :
    s'.mark < bs.length ∧ s'.fieldLen ≤ bs.length ∧ s'.fieldStart < bs.length := by
  have hpos : 0 < bs.length := List.length_pos_iff.mpr hbs
  have hrun := scan_induction_at (n := bs.length)
    (P := fun p s => s.mark < bs.length ∧ s.fieldLen ≤ bs.length ∧ s.fieldStart < bs.length ∧
      s.fieldStart ≤ p) ?_ ?_ (Nat.zero_add _).le h ⟨by omega, by omega, by omega, by omega⟩
  · exact ⟨hrun.1, hrun.2.1, hrun.2.2.1⟩
  · rintro p a s s' hp hexec ⟨hmark, hlen, hstart, hle⟩
    obtain ⟨hmark', hstart', hlen'⟩ := hact p a s s' hexec
    have hfield := add_len_le hle
    refine ⟨?_, ?_, ?_, ?_⟩ <;> omega
  · rintro p s ⟨hmark, hlen, hstart, hle⟩
    exact ⟨hmark, hlen, hstart, by omega⟩

theorem actionStep_onHttpField {M K : Type} {key : M → K} {setHeader : M → Bytes → Bytes → M}
    (hkey : ∀ m f v, key (setHeader m f v) = key m) {buffer : Bytes} {s s' : ParserData M}
    {field flen value vlen p : ℕ}
    (h : onHttpField setHeader buffer s field flen value vlen = some s') :
    ActionStep key p s s' := by
  unfold onHttpField at h
  split_ifs at h
  · obtain rfl := Option.some.inj h
    exact .report rfl
  · obtain ⟨f, -, h⟩ := Option.bind_eq_some_iff.mp h
    obtain ⟨v, -, rfl⟩ := Option.map_eq_some_iff.mp h
    exact .report (hkey _ f v)

/-! ### The callbacks -/

section Callbacks

variable (buffer : Bytes) (s : RequestData)

def onRequestMethod (at_ : ℕ) : RequestData :=
  let m := charsToHttpMethod (buffer.drop at_)
  if m = .invalidMethod then { s with error := 1000 }
  else { s with message := s.message.setMethod m }

def onRequestFragment (at_ length : ℕ) : Option RequestData :=
  (stringAt buffer at_ length).map fun v => { s with message := s.message.setFragment v }

def onRequestPath (at_ length : ℕ) : Option RequestData :=
  (stringAt buffer at_ length).map fun v => { s with message := s.message.setPath v }

def onRequestQuery (at_ length : ℕ) : Option RequestData :=
  (stringAt buffer at_ length).map fun v => { s with message := s.message.setQuery v }

def onRequestVersion (at_ length : ℕ) : RequestData :=
  if strncmpEq (buffer.drop at_) (bytes "HTTP/1.1") length then
    { s with message := s.message.setVersion 0x11 }
  else if strncmpEq (buffer.drop at_) (bytes "HTTP/1.0") length then
    { s with message := s.message.setVersion 0x10 }
  else { s with error := 1001 }

def onRequestHttpField (field flen value vlen : ℕ) : Option RequestData :=
  onHttpField HttpRequest.setHeader buffer s field flen value vlen

/-- What an action does at position `fpc`. -/
def RequestAction.act (fpc : ℕ) : RequestAction → RequestData → Option RequestData
  | .mark, s => some { s with mark := fpc }
  | .startField, s => some { s with fieldStart := fpc }
  | .writeField, s => some { s with fieldLen := len s.fieldStart fpc }
  | .startValue, s => some { s with mark := fpc }
  | .writeValue, s =>
    onRequestHttpField buffer s s.fieldStart s.fieldLen s.mark (len s.mark fpc)
  | .requestMethod, s => some (onRequestMethod buffer s s.mark)
  | .requestUri, s => some s
  | .fragment, s => onRequestFragment buffer s s.mark (len s.mark fpc)
  | .startQuery, s => some { s with queryStart := fpc }
  | .queryString, s => onRequestQuery buffer s s.queryStart (len s.queryStart fpc)
  | .httpVersion, s => some (onRequestVersion buffer s s.mark (len s.mark fpc))
  | .requestPath, s => onRequestPath buffer s s.mark (len s.mark fpc)
  | .done, s | .xml, s | .json, s => some s

/-- Each action sets the register it is named after, if any, and none touches the body. -/
theorem RequestAction.step {buffer : Bytes} {p : ℕ} {a : RequestAction} {s s' : RequestData}
    (h : a.act buffer p s = some s') : ActionStep HttpRequest.body p s s' := by
  cases a <;> simp only [RequestAction.act, Option.some.injEq] at h
  case mark | startValue => exact h ▸ .registers ⟨.inr rfl, .inl rfl, .inl rfl⟩ rfl rfl
  case startField => exact h ▸ .registers ⟨.inl rfl, .inr rfl, .inl rfl⟩ rfl rfl
  case writeField => exact h ▸ .registers ⟨.inl rfl, .inl rfl, .inr rfl⟩ rfl rfl
  case startQuery => exact h ▸ .registers ⟨.inl rfl, .inl rfl, .inl rfl⟩ rfl rfl
  case writeValue =>
    unfold onRequestHttpField at h
    apply actionStep_onHttpField _ h
    intro m f v
    rfl
  case requestMethod =>
    simp only [onRequestMethod] at h
    split_ifs at h
    · exact h ▸ .fail (Nat.succ_ne_zero 999)
    · exact h ▸ .report rfl
  case httpVersion =>
    unfold onRequestVersion at h
    split_ifs at h
    · exact h ▸ .report rfl
    · exact h ▸ .report rfl
    · exact h ▸ .fail (Nat.succ_ne_zero 1000)
  case fragment | queryString | requestPath =>
    obtain ⟨v, -, rfl⟩ := Option.map_eq_some_iff.mp h
    exact .report rfl
  all_goals exact h ▸ .report rfl

end Callbacks

/-! ### The parser -/

/-- The table of the generated request scanner. -/
abbrev RequestTable := Automaton RequestAction

/-- `HttpRequestParser`: the state `cs` and the data. -/
structure HttpRequestParser (T : RequestTable) where
  cs : T.State
  data : RequestData

namespace HttpRequestParser

variable {T : RequestTable}

/-- The constructor.  `query_start` is not initialised by `http_parser_init`; it is a parameter. -/
def new (T : RequestTable) (queryStart : ℕ) : HttpRequestParser T :=
  { cs := T.start, data := .init {} queryStart }

/-- What `http_parser_execute` does to the registers on entry. -/
def reset (s : RequestData) : RequestData := { s with mark := 0, fieldLen := 0, fieldStart := 0 }

/-- `http_parser_execute(&m_parser, buffer, len, 0)`: the number of bytes it consumed.  It asserts
that the length is the same as an `int`; its assertions about the registers always hold
(`registers_of_execute`), and the one about `body_start` can only fail in a parser that is used
again after it finished. -/
def httpParserExecute (parser : HttpRequestParser T) (buffer : Bytes) (length : ℕ) :
    Option (ℕ × HttpRequestParser T) :=
  if length = 0 then some (0, parser)
  else if toInt length ≠ length then none
  else
    (scan T (RequestAction.act buffer) RequestAction.stops (buffer.take length) 0 parser.cs
      (reset parser.data)).map fun r => (r.1, { cs := r.2.1, data := r.2.2 })

/-- A call that returns: on no bytes nothing happens, and otherwise the scanner runs over them. -/
theorem httpParserExecute_cases {parser parser' : HttpRequestParser T} {buffer : Bytes}
    {length n : ℕ} (h : parser.httpParserExecute buffer length = some (n, parser')) :
    (length = 0 ∧ n = 0 ∧ parser' = parser) ∨
      (length ≠ 0 ∧ toInt length = length ∧
        scan T (RequestAction.act buffer) RequestAction.stops (buffer.take length) 0 parser.cs
          (reset parser.data) = some (n, parser'.cs, parser'.data)) := by
  unfold httpParserExecute at h
  split_ifs at h with hzero hwrap
  · obtain ⟨rfl, rfl⟩ := Prod.mk.inj (Option.some.inj h)
    exact .inl ⟨hzero, rfl, rfl⟩
  · obtain ⟨⟨n', q, s⟩, hscan, heq⟩ := Option.map_eq_some_iff.mp h
    obtain ⟨rfl, rfl⟩ := Prod.mk.inj heq
    exact .inr ⟨hzero, not_not.mp hwrap, hscan⟩

/-- What `http_parser_execute` asserts of the registers. -/
theorem registers_of_execute {parser parser' : HttpRequestParser T} {buffer : Bytes} {length n : ℕ}
    (hne : length ≠ 0) (hlength : length ≤ buffer.length)
    (h : parser.httpParserExecute buffer length = some (n, parser')) :
    parser'.data.mark < length ∧ parser'.data.fieldLen ≤ length ∧
      parser'.data.fieldStart < length := by
  rcases httpParserExecute_cases h with ⟨hzero, -⟩ | ⟨-, -, hscan⟩
  · exact absurd hzero hne
  · have htake : (buffer.take length).length = length := List.length_take_of_le hlength
    have hpiece : buffer.take length ≠ [] := by
      intro h0
      rw [h0] at htake
      exact hne htake.symm
    have hbounds := registers_of_scan
      (fun _ _ _ _ h => (RequestAction.step h).toRegisterStep) hpiece hscan ⟨rfl, rfl, rfl⟩
    rwa [htake] at hbounds

/-- `execute(data, len)`: parses and moves what is left of the `len` bytes to the front of the
buffer. -/
def execute (parser : HttpRequestParser T) (data : Bytes) (length : ℕ) :
    Option (ℕ × HttpRequestParser T × Bytes) :=
  (parser.httpParserExecute data length).map fun r =>
    let rest := (data.take length).drop r.1
    (r.1, r.2, rest ++ data.drop rest.length)

theorem of_execute {parser parser' : HttpRequestParser T} {data data' : Bytes} {length n : ℕ}
    (h : parser.execute data length = some (n, parser', data')) :
    parser.httpParserExecute data length = some (n, parser') ∧
      data' = (data.take length).drop n ++ data.drop ((data.take length).drop n).length := by
  obtain ⟨⟨n', p⟩, hcall, heq⟩ := Option.map_eq_some_iff.mp h
  simp only [Prod.mk.injEq] at heq
  obtain ⟨rfl, rfl, rfl⟩ := heq
  exact ⟨hcall, rfl⟩

def hasError (parser : HttpRequestParser T) : Bool :=
  decide (parser.data.error ≠ 0) || decide (parser.cs = T.error)

def isFinished (parser : HttpRequestParser T) : ℤ :=
  if parser.cs = T.error then -1 else if T.isFinal parser.cs then 1 else 0

def getcontentLength (parser : HttpRequestParser T) : ℕ :=
  parser.data.message.headers.getAs (bytes "content-length") 0

end HttpRequestParser

end Muhui.Http
