/-
  Printing a response and parsing it back.

  The version callback compares with a misspelt name, so no response of version 1.0 is read without
  error.  The blanks in front of a value that the scanner skips include two control characters that
  are no blanks.  Every other response comes back as it was printed
  (`responce_roundTrips_iff`).
-/
import Muhui.Http.ResponceFragment

namespace Muhui.Http

open Scanner

/-! ### The statement -/

/-- The responses that the grammar can spell and that leave the framing headers to `dump`.  They
have no cookies: nothing adds one, as `setCookie` drops the text it builds. -/
structure HttpResponce.Printable (r : HttpResponce) : Prop where
  websocket : r.websocket = false
  version : r.version = 0x10 ∨ r.version = 0x11
  reason : r.reason ≠ [] ∧ ∀ b ∈ r.reason, isTextChar b = true
  names : ∀ e ∈ r.headers.entries, e.1 ≠ [] ∧ ∀ b ∈ e.1, isTokenChar b = true
  values : ∀ e ∈ r.headers.entries, (∀ b ∈ e.2, isTextChar b = true) ∧
    ∀ b ∈ e.2.head?, isBlank b = false
  unframed : ∀ e ∈ r.headers.entries, caseRank e.1 ≠ caseRank (bytes "connection") ∧
    caseRank e.1 ≠ caseRank (bytes "content-length")
  cookies : r.cookies = []

/-- The headers of a response and those that `dump` adds. -/
def HttpResponce.framedHeaders (r : HttpResponce) : HeaderMap :=
  let m := r.headers.insert (bytes "connection") (connectionValue r.close)
  if r.body = [] then m else m.insert (bytes "content-length") (decimal r.body.length)

/-- `parsed` has the parts of `r`, and the headers that `dump` printed. -/
structure HttpResponce.Recovers (r parsed : HttpResponce) : Prop where
  version : parsed.version = r.version
  status : parsed.status = r.status
  reason : parsed.reason = r.reason
  headers : parsed.headers = r.framedHeaders

/-- `toString()` goes through a fresh parser in one piece: no error, the same response, and the
content length of the body.  `stale` is what the buffer holds behind the NUL. -/
def HttpResponce.RoundTrips (T : ResponceTable) (r : HttpResponce) (stale : Bytes) : Prop :=
  ∃ n parser data, (HttpResponceParser.new T).execute (r.dump ++ 0 :: stale) r.dump.length true =
      some (n, parser, data) ∧
    parser.hasError = false ∧ parser.isFinished = 1 ∧ r.Recovers parser.data.message ∧
    parser.getcontentLength = r.body.length

/-! ### The printed text -/

namespace HttpResponce

/-- The header lines of a printed response. -/
def lines (r : HttpResponce) : List (Bytes × Bytes) :=
  r.headers.entries ++ ((bytes "connection", connectionValue r.close) ::
    if r.body = [] then [] else [(bytes "content-length", decimal r.body.length)])

/-- The version and the blank behind it. -/
def versionText (r : HttpResponce) : Bytes :=
  bytes "HTTP/" ++ decimal (r.version >>> 4).toNat ++ bytes "." ++
    decimal (r.version &&& 0x0F).toNat ++ [32]

/-- What is printed between the version and the last line feed of the header section. -/
def tailText (r : HttpResponce) : Bytes :=
  (decimal r.status.toUInt32.toNat ++ [32]) ++ ((r.reason ++ [13]) ++ ([10] ++
    ((r.lines.flatMap fun e => headerLine e.1 e.2) ++ [13])))

variable {r : HttpResponce}

/-- `dump` prints the head, the last line feed and the body. -/
theorem dump_eq (hr : r.Printable) : r.dump = r.versionText ++ r.tailText ++ [10] ++ r.body := by
  have hcrlf : crlf = [13] ++ [10] := rfl
  have hblank : bytes " " = [32] := by decide
  have hreason : r.reason.isEmpty = false := by
    simpa using hr.reason.1
  rw [dump, hr.websocket, hr.cookies, dumpHeaders_eq fun e he => (hr.unframed e he).1,
    dumpConnection, if_neg Bool.false_ne_true, hreason, if_neg Bool.false_ne_true, versionText,
    tailText, lines, hcrlf, hblank]
  by_cases hbody : r.body = [] <;> simp [hbody, List.append_assoc, headerLine, crlf]

end HttpResponce

/-! ### Reading the status line -/

theorem responceFlags (buffer : Bytes) :
    FlagRules ResponceAction.isFlag ResponceAction.stops (ResponceAction.act buffer) where
  act p a s h := by
    cases a <;> first | rfl | exact absurd h Bool.false_ne_true
  stops a h := by
    cases a <;> first | rfl | exact absurd h Bool.false_ne_true

section Line

variable {T : ResponceTable} {rel : ResponcePlace → T.State → Prop}
variable (follows : Follows T responceFragment ResponceAction.isFlag rel) {buffer : Bytes}

variable (T rel buffer) in
/-- `Reads` for the response scanner. -/
abbrev ReadsResponce (f : ResponcePlace) (m : HttpResponce) (bs : Bytes) (f' : ResponcePlace)
    (m' : HttpResponce) : Prop :=
  Reads T responceFragment rel (ResponceAction.act buffer) ResponceAction.stops buffer f m bs f' m'

include follows

/-- The version: only 1.1 is read without error. -/
theorem version_moves {r m : HttpResponce} {p : ℕ} {rest : Bytes}
    (hr : r.version = 0x10 ∨ r.version = 0x11) (hbuffer : buffer.drop p = r.versionText ++ rest) :
    Moves T responceFragment rel (ResponceAction.act buffer) ResponceAction.stops p (.version 0)
      (Holding m) r.versionText .statusStart fun s =>
        if r.version = 0x11 then Holding (m.setVersion r.version) s else s.error = 1001 := by
  obtain ⟨d, hd, htext⟩ := printedVersion_eq hr [32]
  rw [HttpResponce.versionText, htext] at hbuffer ⊢
  have hwalk : responceFragment.walk (.version 1) (bytes "TTP/1." ++ [d]) = some (.version 8) := by
    rcases hd with ⟨rfl, -⟩ | ⟨rfl, -⟩ <;> decide
  refine token_moves (responceFlags buffer) follows ParserData.mark [.httpVersion]
    (f := .version 0) (g := .version 1) rfl hwalk rfl rfl rfl
    (fun s hs => ⟨{ s with mark := p }, rfl, hs, rfl⟩) fun s hs hmark => ?_
  subst hmark
  have hlen : (72 :: (bytes "TTP/1." ++ [d])).length = 8 := rfl
  rw [List.append_assoc] at hbuffer
  refine ⟨onResponseVersion buffer s s.mark 8, ?_, ?_⟩
  · rw [runActions_singleton]
    show some (onResponseVersion buffer s s.mark (len s.mark _)) = _
    rw [hlen, len_eq (by norm_num)]
  · rw [onResponseVersion, strncmpEq_version hbuffer, strncmpEq_version hbuffer]
    rcases hd with ⟨rfl, hversion⟩ | ⟨rfl, hversion⟩
    · -- the printed name is compared with a misspelt one
      have hne : ¬(0x10 : UInt8) = 0x11 := by decide
      rw [hversion, if_neg hne, if_neg (by decide), if_neg (by decide)]
    · rw [hversion, if_pos rfl, if_pos (by decide)]
      exact ⟨by rw [← hs.1], hs.2⟩

theorem reads_status {m : HttpResponce} (x : Int32) :
    ReadsResponce T rel buffer .statusStart m (decimal x.toUInt32.toNat ++ [32]) .reasonStart
      (m.setStatus x) := by
  obtain ⟨b, bs, hdecimal, hb⟩ := decimal_head x.toUInt32.toNat
  have hdigits : ∀ c ∈ b :: bs, isDigit c = true := by
    rw [← hdecimal]
    exact fun c hc => isDigit_of_mem_decimal hc
  have hloop : responceFragment.walk .status bs = some .status :=
    Fragment.walk_loop fun c hc => if_pos (hdigits c (List.mem_cons_of_mem _ hc))
  intro p rest hbuffer
  rw [hdecimal]
  refine token_moves (responceFlags buffer) follows ParserData.mark [.statusCode]
    (f := .statusStart) (g := .status) (if_pos hb) hloop rfl rfl rfl
    (fun s hs => ⟨{ s with mark := p }, rfl, hs, rfl⟩) fun s hs hmark => ?_
  subst hmark
  refine ⟨{ s with message := s.message.setStatus x }, ?_, by rw [hs.1], hs.2⟩
  rw [runActions_singleton]
  show some (onResponseStatus buffer s s.mark) = _
  rw [onResponseStatus, hbuffer, List.append_assoc, List.cons_append, atoi_decimal x rfl]

theorem reads_reason {m : HttpResponce} {reason : Bytes} (hlen : reason.length < 2 ^ 63)
    (hne : reason ≠ []) (hreason : ∀ b ∈ reason, isTextChar b = true) :
    ReadsResponce T rel buffer .reasonStart m (reason ++ [13]) .cr (m.setReason reason) := by
  obtain ⟨b, bs, rfl⟩ := List.exists_cons_of_ne_nil hne
  have hloop : responceFragment.walk .reason bs = some .reason :=
    Fragment.walk_loop fun c hc => if_pos (hreason c (List.mem_cons_of_mem _ hc))
  refine Reads.token (responceFlags buffer) follows ParserData.mark [.reasonPhrase]
    (f := .reasonStart) (g := .reason) (if_pos (hreason b List.mem_cons_self)) hloop
    rfl rfl rfl (fun p s hs => ⟨{ s with mark := p }, rfl, hs, rfl⟩)
    fun p rest s hbuffer hs hmark => ?_
  subst hmark
  refine ⟨{ s with message := s.message.setReason (b :: bs) }, ?_, by rw [hs.1], hs.2⟩
  rw [runActions_singleton]
  show onResponseReason buffer s s.mark (len s.mark _) = _
  rw [onResponseReason, len_eq hlen, stringAt_eq hbuffer hlen]
  rfl

omit follows

/-! ### Reading the headers -/

def responceFieldGrammar : FieldGrammar responceFragment where
  lineStart := .lineStart
  name := .name
  colon := .colon
  value := .value
  cr := .cr
  emptyCr := .emptyCr
  afterEmpty := .afterEmpty
  mark := .startValue
  startField := .startField
  writeField := .writeField
  startValue := .startValue
  writeValue := .writeValue
  skip := isSpaceInLine
  valueStart b := isTextChar b && !isSpaceInLine b

theorem isTextChar_of_isSpaceInLine : ∀ b, isSpaceInLine b = true → isTextChar b = true := by
  intro b hb
  grind [isSpaceInLine, isTextChar]

theorem responceFieldRules (buffer : Bytes) :
    FieldRules responceFieldGrammar ResponceAction.stops (ResponceAction.act buffer) buffer
      HttpResponce.setHeader where
  start f hf b hb := by
    refine ⟨[[.startField], [.startValue, .startField]], ?_, fun as has => ?_⟩
    · rcases hf with rfl | rfl <;> exact if_pos hb
    · have hlist : as = [.startField] ∨ as = [.startValue, .startField] := by simpa using has
      exact hlist
  name b hb := if_pos hb
  colon := rfl
  skip b hb := if_pos hb
  value b hb := by
    have hb' : isTextChar b = true ∧ isSpaceInLine b = false := by
      simpa [responceFieldGrammar] using hb
    show responceStep .colon b = _
    rw [responceStep, hb'.2, if_neg Bool.false_ne_true]
    exact if_pos hb'.1
  more b hb := by
    refine if_pos ?_
    rcases hb with hb | hb
    · exact isTextChar_of_isSpaceInLine b hb
    · exact (Bool.and_eq_true_iff.mp hb).1
  last := rfl
  empty := rfl
  lf := rfl
  emptyLf := rfl
  blank := rfl
  stops := by decide
  actMark _ _ := rfl
  actStartField _ _ := rfl
  actWriteField _ _ := rfl
  actStartValue _ _ := rfl
  actWriteValue _ _ := rfl

end Line

/-! ### The printed headers -/

/-- What the scanner leaves of a value. -/
def trimStart (v : Bytes) : Bytes := v.dropWhile isSpaceInLine

theorem trimStart_eq_self_iff {v : Bytes} :
    trimStart v = v ↔ ∀ b ∈ v.head?, isSpaceInLine b = false := by
  cases v with
  | nil => simp [trimStart]
  | cons b bs =>
    cases hb : isSpaceInLine b with
    | true =>
      have hshort : (trimStart (b :: bs)).length ≤ bs.length := by
        rw [trimStart, List.dropWhile_cons_of_pos hb]
        exact (List.dropWhile_sublist _).length_le
      refine ⟨fun h => ?_, fun h => by simp [hb] at h⟩
      rw [h, List.length_cons] at hshort
      omega
    | false => simp [trimStart, List.dropWhile_cons_of_neg, hb]

theorem trimStart_decimal (n : ℕ) : trimStart (decimal n) = decimal n := by
  refine trimStart_eq_self_iff.mpr fun b hb => ?_
  have hdigit := isDigit_of_mem_decimal (List.mem_of_head? hb)
  grind [isDigit, isSpaceInLine]

theorem trimStart_connectionValue (close : Bool) :
    trimStart (connectionValue close) = connectionValue close := by
  cases close <;> decide

namespace HttpResponce

variable {r : HttpResponce}

theorem printed_lines (r : HttpResponce) :
    Printed r.headers.entries r.close (bytes "content-length") r.body.length r.lines := by
  intro e he
  unfold lines at he
  rcases List.mem_append.mp he with he | he
  · exact .inl he
  · rcases List.mem_cons.mp he with he | he
    · exact .inr (.inl he)
    · split_ifs at he
      · exact absurd he List.not_mem_nil
      · exact .inr (.inr (List.mem_singleton.mp he))

theorem isTextChar_of_isValueChar : ∀ b, isValueChar b = true → isTextChar b = true := by
  intro b hb
  grind [isValueChar, isTextChar]

theorem value_of_mem_lines (hr : r.Printable) {e : Bytes × Bytes} (he : e ∈ r.lines) :
    ∀ b ∈ e.2, isTextChar b = true :=
  (printed_lines r).value (p := fun v => ∀ b ∈ v, isTextChar b = true)
    (fun e he => (hr.values e he).1) (fun _ hv b hb => isTextChar_of_isValueChar b (hv b hb)) he

theorem length_lines_le (hr : r.Printable) :
    (r.lines.flatMap fun e => headerLine e.1 e.2).length ≤ r.dump.length := by
  rw [dump_eq hr, tailText]
  simp only [List.length_append]
  omega

theorem setHeaders_eq {lines : List (Bytes × Bytes)} {m : HttpResponce} :
    lines.foldl (fun m e => m.setHeader e.1 (trimStart e.2)) m =
      { m with headers := m.headers.insertAll (lines.map fun e => (e.1, trimStart e.2)) } := by
  induction lines generalizing m with
  | nil => rfl
  | cons e lines ih =>
    rw [List.foldl_cons, ih]
    rfl

/-- The line behind the headers is never the line behind an empty value. -/
theorem afterLines_lines : responceFieldGrammar.afterLines .lineStart r.lines = .lineStart := by
  have hlast (f : ResponcePlace) (ls : List (Bytes × Bytes)) (e : Bytes × Bytes)
      (he : trimStart e.2 ≠ []) : responceFieldGrammar.afterLines f (ls ++ [e]) = .lineStart := by
    rw [FieldGrammar.afterLines, List.foldl_append]
    exact if_neg he
  rw [lines]
  by_cases hbody : r.body = []
  · rw [if_pos hbody]
    refine hlast _ _ _ ?_
    rw [trimStart_connectionValue, connectionValue]
    split_ifs <;> decide
  · rw [if_neg hbody, List.append_cons]
    refine hlast _ _ _ ?_
    rw [trimStart_decimal]
    exact decimal_ne_nil _

/-- What the parser makes of the printed text. -/
def parsed (r : HttpResponce) : HttpResponce :=
  { status := r.status
    version := r.version
    reason := r.reason
    headers := RankedMap.empty.insertAll (r.lines.map fun e => (e.1, trimStart e.2)) }

/-- The parsed headers are the trimmed ones, framed. -/
theorem parsed_headers :
    r.parsed.headers = framedHeaders { r with headers := r.headers.mapValues trimStart } := by
  have hentries : r.headers.entries.map (fun e => (e.1, trimStart e.2)) =
      (r.headers.mapValues trimStart).entries := rfl
  show RankedMap.empty.insertAll (r.lines.map fun e => (e.1, trimStart e.2)) = _
  rw [lines, List.map_append, hentries, RankedMap.insertAll_append, RankedMap.insertAll_empty,
    List.map_cons, trimStart_connectionValue, framedHeaders]
  by_cases hbody : r.body = []
  · simp only [hbody, if_true]
    rfl
  · simp only [hbody, if_false, List.map_cons, List.map_nil, trimStart_decimal]
    rfl

end HttpResponce

/-! ### The whole text -/

section Whole

variable {T : ResponceTable} {rel : ResponcePlace → T.State → Prop}
variable (follows : Follows T responceFragment ResponceAction.isFlag rel)

include follows

/-- The head behind the version. -/
theorem reads_tail {r m : HttpResponce} (hr : r.Printable) (hsize : r.dump.length < 2 ^ 31)
    (buffer : Bytes) :
    ReadsResponce T rel buffer .statusStart m r.tailText .lastCr
      { m with
        status := r.status
        reason := r.reason
        headers := m.headers.insertAll (r.lines.map fun e => (e.1, trimStart e.2)) } := by
  have hreasonLen : r.reason.length < 2 ^ 63 := by
    rw [HttpResponce.dump_eq hr, HttpResponce.tailText] at hsize
    simp only [List.length_append] at hsize
    omega
  have hlf (m : HttpResponce) : ReadsResponce T rel buffer .cr m [10] .lineStart m :=
    Reads.walk (responceFlags buffer) follows rfl
  have hlines (m : HttpResponce) : ReadsResponce T rel buffer .lineStart m
      (r.lines.flatMap fun e => headerLine e.1 e.2) .lineStart
      { m with headers := m.headers.insertAll (r.lines.map fun e => (e.1, trimStart e.2)) } := by
    have hchars : ∀ e ∈ r.lines, ∀ b ∈ e.2, responceFieldGrammar.skip b = true ∨
        responceFieldGrammar.valueStart b = true := by
      intro e he b hb
      have htext := HttpResponce.value_of_mem_lines hr he b hb
      show isSpaceInLine b = true ∨ (isTextChar b && !isSpaceInLine b) = true
      cases isSpaceInLine b <;> simp [htext]
    have hlen : ∀ e ∈ r.lines, e.1.length + e.2.length < 2 ^ 63 := by
      intro e he
      have hle := (length_of_mem_lines he).trans (HttpResponce.length_lines_le hr)
      omega
    have h := (responceFieldRules buffer).reads_lines (responceFlags buffer) follows
      r.lines (f := ResponcePlace.lineStart) (m := m)
      hlen (.inl rfl)
      (fun e he => (HttpResponce.printed_lines r).name
        (p := fun name => name ≠ [] ∧ ∀ b ∈ name, isTokenChar b = true) hr.names (by decide)
        (by decide) he) hchars
    rw [HttpResponce.afterLines_lines] at h
    exact HttpResponce.setHeaders_eq (m := m) ▸ h
  have hcr (m : HttpResponce) : ReadsResponce T rel buffer .lineStart m [13] .lastCr m :=
    Reads.walk (responceFlags buffer) follows rfl
  exact (reads_status follows r.status).append
    ((reads_reason follows hreasonLen hr.reason.1 hr.reason.2).append
      ((hlf _).append ((hlines _).append (hcr _))))

omit follows in
/-- `execute` on a text in front of a NUL, in terms of the scan. -/
theorem execute_of_scan {text stale : Bytes} (hne : text ≠ []) (hsize : text.length < 2 ^ 31)
    {n : ℕ} {q : T.State} {s : ResponceData}
    (hscan : scan T (ResponceAction.act (text ++ 0 :: stale)) ResponceAction.stops text 0 T.start
      (.init {} 0) = some (n, q, s)) :
    ∃ data, (HttpResponceParser.new T).execute (text ++ 0 :: stale) text.length true =
      some (n, { cs := q, data := s }, data) := by
  have hassert : ¬(((text ++ 0 :: stale).drop text.length).headD 0 ≠ 0 ∨
      toInt text.length ≠ text.length) := by
    rintro (h | h)
    · rw [List.drop_left] at h
      exact h rfl
    · exact h (toInt_of_lt hsize)
  have hchecked := registers_of_scan
    (fun _ _ _ _ h => (ResponceAction.step h).toRegisterStep) hne hscan
    ⟨rfl, rfl, rfl⟩
  have hinit : (HttpResponceParser.new T).init = HttpResponceParser.new T := rfl
  have hreset : HttpResponceParser.reset (ParserData.init {} 0) = .init {} 0 := rfl
  have hexec : (HttpResponceParser.new T).httpclientParserExecute (text ++ 0 :: stale) text.length =
      some ((n : ℤ), { cs := q, data := s }) := by
    rw [HttpResponceParser.httpclientParserExecute, if_neg hassert, List.take_left,
      HttpResponceParser.new, hreset, hscan, Option.map_some]
    simp only [if_pos hchecked]
  rw [HttpResponceParser.execute, if_pos rfl, hinit, hexec]
  simp only
  rw [if_neg (by omega), Int.toNat_natCast]
  exact ⟨_, rfl⟩

omit follows in
/-- A text that is too long, or that the scanner rejects, is not read without error. -/
theorem scan_of_execute {text stale : Bytes} {n : ℕ} {parser : HttpResponceParser T}
    {data : Bytes}
    (h : (HttpResponceParser.new T).execute (text ++ 0 :: stale) text.length true =
      some (n, parser, data)) :
    text.length < 2 ^ 31 ∧ ∃ n', scan T (ResponceAction.act (text ++ 0 :: stale))
      ResponceAction.stops text 0 T.start (.init {} 0) = some (n', parser.cs, parser.data) := by
  have hinit : (HttpResponceParser.new T).init = HttpResponceParser.new T := rfl
  rw [HttpResponceParser.execute, if_pos rfl, hinit] at h
  cases hexec : (HttpResponceParser.new T).httpclientParserExecute (text ++ 0 :: stale)
      text.length with
  | none =>
    rw [hexec] at h
    cases h
  | some r =>
    rw [hexec] at h
    simp only at h
    split_ifs at h
    obtain ⟨-, hparser⟩ := Prod.mk.inj (Option.some.inj h)
    obtain ⟨rfl, -⟩ := Prod.mk.inj hparser
    rw [HttpResponceParser.httpclientParserExecute] at hexec
    split_ifs at hexec with hassert
    obtain ⟨-, hint⟩ := not_or.mp hassert
    refine ⟨toInt_eq_iff.mp (not_not.mp hint), ?_⟩
    obtain ⟨⟨n', q, s⟩, hscan, rfl⟩ := Option.map_eq_some_iff.mp hexec
    rw [List.take_left] at hscan
    exact ⟨n', hscan⟩

/-- A version 1.1 response is read without error. -/
theorem execute_dump_eleven {r : HttpResponce} (hr : r.Printable) (hversion : r.version = 0x11)
    (hsize : r.dump.length < 2 ^ 31) (stale : Bytes) :
    ∃ parser data, (HttpResponceParser.new T).execute (r.dump ++ 0 :: stale) r.dump.length true =
        some ((r.versionText ++ r.tailText).length + 1, parser, data) ∧
      parser.hasError = false ∧ parser.isFinished = 1 ∧ parser.data.message = r.parsed := by
  have hdump := HttpResponce.dump_eq hr
  have hne : r.dump ≠ [] := by
    rw [hdump]
    simp
  have hbuffer : (r.dump ++ 0 :: stale).drop 0 =
      r.versionText ++ (r.tailText ++ ([10] ++ r.body ++ 0 :: stale)) := by
    rw [hdump, List.drop_zero]
    simp only [List.append_assoc]
  have hmoves := version_moves follows (m := {}) hr.version hbuffer
  simp only [if_pos hversion] at hmoves
  have htail := reads_tail follows (m := HttpResponce.setVersion {} r.version) hr hsize
    (r.dump ++ 0 :: stale) r.versionText.length ([10] ++ r.body ++ 0 :: stale) (by
      rw [← Nat.zero_add r.versionText.length, ← List.drop_drop, hbuffer, List.drop_left])
  have hlast : responceFragment.step .lastCr 10 = some (.finished, [[.done]]) := rfl
  obtain ⟨q, s, -, hq, hfinal, ⟨hmessage, herror⟩, hscan⟩ :=
    follows.scan_of_moves (responceFlags (r.dump ++ 0 :: stale)).act
      (responceFlags (r.dump ++ 0 :: stale)).stops (.init {} 0) (Holding r.parsed)
      (hmoves.append (by simp) htail) ⟨rfl, rfl⟩ hlast fun as has => by
        obtain rfl := List.mem_singleton.mp has
        exact ⟨rfl, fun s hs => ⟨s, rfl, hs⟩⟩
  have hscan' := hscan r.body
  rw [← hdump] at hscan'
  obtain ⟨data, hexec⟩ := execute_of_scan hne hsize hscan'
  refine ⟨_, data, hexec, ?_, ?_, hmessage⟩
  · simp [HttpResponceParser.hasError, herror, hq]
  · simp [HttpResponceParser.isFinished, hfinal, hq]

/-- A version 1.0 response is read with an error. -/
theorem error_of_ten {r : HttpResponce} (hr : r.Printable) (hversion : r.version ≠ 0x11)
    {stale data : Bytes} {n : ℕ} {parser : HttpResponceParser T}
    (h : (HttpResponceParser.new T).execute (r.dump ++ 0 :: stale) r.dump.length true =
      some (n, parser, data)) : parser.hasError = true := by
  obtain ⟨-, n', hscan⟩ := scan_of_execute h
  have hdump : r.dump = r.versionText ++ (r.tailText ++ [10] ++ r.body) := by
    rw [HttpResponce.dump_eq hr]
    simp only [List.append_assoc]
  have hbuffer : (r.dump ++ 0 :: stale).drop 0 =
      r.versionText ++ (r.tailText ++ [10] ++ r.body ++ 0 :: stale) := by
    rw [List.drop_zero]
    conv_lhs => rw [hdump, List.append_assoc]
  obtain ⟨q, s, -, hs, hmoves⟩ := version_moves follows (m := {}) hr.version hbuffer T.start
    (.init {} 0) follows.start ⟨rfl, rfl⟩
  rw [if_neg hversion] at hs
  -- no error at the end would mean no error behind the version
  by_contra hno
  have hgood : parser.data.error = 0 := by
    simp only [HttpResponceParser.hasError, Bool.or_eq_true, decide_eq_true_eq, not_or,
      not_not] at hno
    exact hno.1
  have hrest := hmoves (r.tailText ++ [10] ++ r.body)
  rw [← hdump, hscan] at hrest
  have hback := scan_induction_back (P := fun s => s.error = 0)
    (fun _ _ _ _ h => (ResponceAction.step h).error_back) hrest.symm hgood
  rw [hs] at hback
  exact absurd hback (by decide)

end Whole

/-! ### The round trip -/

/-- Headers that leave the framing to `dump`. -/
def HeaderMap.Unframed (m : HeaderMap) : Prop :=
  m.find (bytes "connection") = none ∧ m.find (bytes "content-length") = none

section Framing

variable {r : HttpResponce}

theorem unframed_headers (hr : r.Printable) : r.headers.Unframed :=
  ⟨RankedMap.find_eq_none fun e he => (hr.unframed e he).1,
    RankedMap.find_eq_none fun e he => (hr.unframed e he).2⟩

theorem unframed_mapValues (hr : r.Printable) (f : Bytes → Bytes) :
    HeaderMap.Unframed (r.headers.mapValues f) := by
  have hentries : ∀ e ∈ (r.headers.mapValues f).entries, ∃ e' ∈ r.headers.entries, e.1 = e'.1 := by
    intro e he
    obtain ⟨e', he', rfl⟩ := List.mem_map.mp he
    exact ⟨e', he', rfl⟩
  constructor
  · refine RankedMap.find_eq_none fun e he => ?_
    obtain ⟨e', he', hkey⟩ := hentries e he
    rw [hkey]
    exact (hr.unframed e' he').1
  · refine RankedMap.find_eq_none fun e he => ?_
    obtain ⟨e', he', hkey⟩ := hentries e he
    rw [hkey]
    exact (hr.unframed e' he').2

theorem connection_ne : ¬caseRank (bytes "connection") = caseRank (bytes "content-length") := by
  decide

/-- The framing does not hide how two header maps differ. -/
theorem framedHeaders_inj {m m' : HeaderMap} (hm : m.Unframed) (hm' : m'.Unframed) :
    HttpResponce.framedHeaders { r with headers := m } =
      HttpResponce.framedHeaders { r with headers := m' } ↔ m = m' := by
  have hfind {m : HeaderMap} (hm : m.Unframed) :
      (m.insert (bytes "connection") (connectionValue r.close)).find (bytes "content-length") =
        none := by
    rw [RankedMap.find_insert, if_neg connection_ne]
    exact hm.2
  unfold HttpResponce.framedHeaders
  by_cases hbody : r.body = []
  · simp only [hbody, if_true]
    exact RankedMap.insert_inj hm.1 hm'.1
  · simp only [hbody, if_false]
    rw [RankedMap.insert_inj (hfind hm) (hfind hm')]
    exact RankedMap.insert_inj hm.1 hm'.1

/-- The length that the parser takes from framed headers. -/
theorem getAs_framedHeaders (hm : r.headers.Unframed) (hbody : r.body.length < 2 ^ 64) :
    r.framedHeaders.getAs (bytes "content-length") 0 = r.body.length := by
  unfold HttpResponce.framedHeaders HeaderMap.getAs
  by_cases h : r.body = []
  · have hnone : (r.headers.insert (bytes "connection") (connectionValue r.close)).find
        (bytes "content-length") = none := by
      rw [RankedMap.find_insert, if_neg connection_ne]
      exact hm.2
    simp only [h, if_true, hnone, List.length_nil]
  · simp only [h, if_false, RankedMap.find_insert, if_true, lexicalCast_decimal hbody,
      Option.getD_some]

end Framing

/-- A printed response goes through the parser exactly when its version is 1.1, no value begins with
a control character that the scanner takes for a blank, and its length is an `int`. -/
theorem responce_roundTrips_iff {T : ResponceTable} {rel : ResponcePlace → T.State → Prop}
    (follows : Follows T responceFragment ResponceAction.isFlag rel) {r : HttpResponce}
    (hr : r.Printable) (stale : Bytes) :
    r.RoundTrips T stale ↔ r.version = 0x11 ∧
      (∀ e ∈ r.headers.entries, ∀ b ∈ e.2.head?, isSpaceInLine b = false) ∧
      r.dump.length < 2 ^ 31 := by
  have htrim : r.parsed.headers = r.framedHeaders ↔
      ∀ e ∈ r.headers.entries, ∀ b ∈ e.2.head?, isSpaceInLine b = false := by
    rw [HttpResponce.parsed_headers]
    rw [framedHeaders_inj (r := r) (unframed_mapValues hr trimStart) (unframed_headers hr),
      RankedMap.mapValues_eq_self_iff]
    simp only [trimStart_eq_self_iff]
  constructor
  · rintro ⟨n, parser, data, hexec, hgood, -, hrecovers, -⟩
    have hversion : r.version = 0x11 := by
      by_contra hversion
      rw [error_of_ten follows hr hversion hexec] at hgood
      exact Bool.false_ne_true hgood.symm
    have hsize := (scan_of_execute hexec).1
    obtain ⟨parser', data', hexec', -, -, hparser⟩ :=
      execute_dump_eleven follows hr hversion hsize stale
    rw [hexec', Option.some.injEq, Prod.mk.injEq, Prod.mk.injEq] at hexec
    rw [← hexec.2.1, hparser] at hrecovers
    exact ⟨hversion, htrim.mp hrecovers.headers, hsize⟩
  · rintro ⟨hversion, hvalues, hsize⟩
    obtain ⟨parser, data, hexec, hgood, hfinished, hparser⟩ :=
      execute_dump_eleven follows hr hversion hsize stale
    have hbody : r.body.length < 2 ^ 64 := by
      rw [HttpResponce.dump_eq hr, List.length_append] at hsize
      omega
    refine ⟨_, parser, data, hexec, hgood, hfinished, ?_, ?_⟩
    · rw [hparser]
      exact ⟨rfl, rfl, rfl, htrim.mpr hvalues⟩
    · rw [HttpResponceParser.getcontentLength, hparser, htrim.mpr hvalues]
      exact getAs_framedHeaders (unframed_headers hr) hbody

/-- A response with a header and a body. -/
def sampleResponce : HttpResponce :=
  { status := 404
    reason := bytes "Not Found"
    body := bytes "gone"
    headers := RankedMap.empty.insert (bytes "server") (bytes "muhui") }

theorem responce_roundTrips_sample : sampleResponce.RoundTrips responceFragmentTable [7, 7] :=
  (responce_roundTrips_iff follows_responceFragmentTable
    { websocket := rfl
      version := .inr rfl
      reason := by decide
      names := by decide
      values := by decide
      unframed := by decide
      cookies := rfl } [7, 7]).mpr ⟨rfl, by decide, by decide⟩

/-- A version 1.0 response: the parser reports an error. -/
theorem not_responce_roundTrips_ten :
    ¬HttpResponce.RoundTrips responceFragmentTable { version := 0x10, reason := bytes "OK" }
      [] := by
  rintro ⟨n, parser, data, hexec, hgood, -⟩
  have herror : ((HttpResponceParser.new responceFragmentTable).execute
      (HttpResponce.dump { version := 0x10, reason := bytes "OK" } ++ [0])
      (HttpResponce.dump { version := 0x10, reason := bytes "OK" }).length true).map
        (fun r => r.2.1.hasError) = some true := by
    decide +kernel
  rw [hexec, Option.map_some, Option.some.injEq, hgood] at herror
  exact Bool.false_ne_true herror

end Muhui.Http
