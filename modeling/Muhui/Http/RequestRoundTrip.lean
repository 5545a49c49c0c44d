/-
  Printing a request and parsing it back.

  `dump` and the parser were written separately.  They agree on the request line and on the
  headers, for every request that the grammar can spell; they disagree on the header that frames
  the body, which `dump` calls `connect-length`.  A printed request therefore comes back exactly
  when it has no body and is not too long for the scanner (`roundTrips_iff`).
-/
import Muhui.Http.RequestFragment

namespace Muhui.Http

open Scanner

/-! ### The statement -/

/-- The requests that the grammar can spell and that leave the framing headers to `dump`. -/
structure HttpRequest.Printable (r : HttpRequest) : Prop where
  websocket : r.websocket = false
  version : r.version = 0x10 ∨ r.version = 0x11
  method : r.method ≠ .msearch ∧ r.method ≠ .invalidMethod
  path : ∃ rest, r.path = 47 :: rest ∧ (∀ b ∈ rest.head?, isPchar b = true) ∧
    ∀ b ∈ rest, (isPchar b || b == 47) = true
  query : ∀ b ∈ r.query, isQueryChar b = true
  fragment : ∀ b ∈ r.fragment, isQueryChar b = true
  names : ∀ e ∈ r.headers.entries, e.1 ≠ [] ∧ ∀ b ∈ e.1, isTokenChar b = true
  values : ∀ e ∈ r.headers.entries, (∀ b ∈ e.2, isBlank b = true ∨ isValueChar b = true) ∧
    ∀ b ∈ e.2.head?, isBlank b = false
  unframed : ∀ e ∈ r.headers.entries, caseRank e.1 ≠ caseRank (bytes "connection") ∧
    caseRank e.1 ≠ caseRank (bytes "content-length")

/-- `parsed` has the parts of `r`, and the connection header that `dump` printed. -/
structure HttpRequest.Recovers (r parsed : HttpRequest) : Prop where
  method : parsed.method = r.method
  path : parsed.path = r.path
  query : parsed.query = r.query
  fragment : parsed.fragment = r.fragment
  version : parsed.version = r.version
  headers : parsed.headers = r.headers.insert (bytes "connection") (connectionValue r.close)

/-- `toString()` goes through a fresh parser in one piece: no error, the same request, the content
length of the body, and the body at the front of the buffer.  `stale` is what the buffer holds
behind the printed text. -/
def HttpRequest.RoundTrips (T : RequestTable) (r : HttpRequest) (queryStart : ℕ) (stale : Bytes) :
    Prop :=
  ∃ n parser data, (HttpRequestParser.new T queryStart).execute (r.dump ++ stale) r.dump.length =
      some (n, parser, data) ∧
    parser.hasError = false ∧ parser.isFinished = 1 ∧ r.Recovers parser.data.message ∧
    parser.getcontentLength = r.body.length ∧ r.dump.length - n = r.body.length ∧
    data.take r.body.length = r.body

/-! ### The printed text -/

/-- The header lines of a printed request. -/
def HttpRequest.lines (r : HttpRequest) : List (Bytes × Bytes) :=
  (bytes "connection", connectionValue r.close) :: r.headers.entries ++
    if r.body.isEmpty then [] else [(bytes "connect-length", decimal r.body.length)]

/-- The path, the query and the fragment, each with the byte that ends it. -/
def HttpRequest.uriText (r : HttpRequest) : Bytes :=
  if r.query = [] then
    if r.fragment = [] then r.path ++ [32] else r.path ++ [35] ++ (r.fragment ++ [32])
  else if r.fragment = [] then r.path ++ [63] ++ (r.query ++ [32])
  else r.path ++ [63] ++ (r.query ++ [35] ++ (r.fragment ++ [32]))

/-- The version and the carriage return. -/
def HttpRequest.versionText (r : HttpRequest) : Bytes :=
  bytes "HTTP/" ++ decimal (r.version >>> 4).toNat ++ bytes "." ++
    decimal (r.version &&& 0x0F).toNat ++ [13]

/-- What is printed in front of the last line feed of the header section. -/
def HttpRequest.headText (r : HttpRequest) : Bytes :=
  httpMethodToString r.method ++ [32] ++ (r.uriText ++ (r.versionText ++ ([10] ++
    ((r.lines.flatMap fun e => headerLine e.1 e.2) ++ [13]))))

/-- `dump` prints the head, the last line feed and the body. -/
theorem HttpRequest.dump_eq {r : HttpRequest} (hr : r.websocket = false)
    (hc : ∀ e ∈ r.headers.entries, caseRank e.1 ≠ caseRank (bytes "connection")) :
    r.dump = r.headText ++ [10] ++ r.body := by
  have hcrlf : crlf = [13] ++ [10] := rfl
  have hspace : bytes " HTTP/" = [32] ++ bytes "HTTP/" := by decide
  have hblank : bytes " " = [32] := by decide
  have hq : bytes "?" = [63] := by decide
  have hf : bytes "#" = [35] := by decide
  rw [HttpRequest.dump, hr, dumpHeaders_eq hc, dumpConnection, if_neg Bool.false_ne_true,
    HttpRequest.headText, HttpRequest.uriText, HttpRequest.versionText, HttpRequest.lines, hcrlf,
    hspace, hblank, hq, hf]
  by_cases hquery : r.query = [] <;> by_cases hfragment : r.fragment = [] <;>
    by_cases hbody : r.body = [] <;>
    simp [hquery, hfragment, hbody, List.append_assoc, headerLine, crlf]

/-! ### Reading the request line -/

theorem requestFlags (buffer : Bytes) :
    FlagRules RequestAction.isFlag RequestAction.stops (RequestAction.act buffer) where
  act p a s h := by
    cases a <;> first | rfl | exact absurd h Bool.false_ne_true
  stops a h := by
    cases a <;> first | rfl | exact absurd h Bool.false_ne_true

theorem fragment_step {f g : RequestPlace} {b : UInt8} {acts : List RequestAction}
    (h : requestStep f b = some (g, acts)) : requestFragment.step f b = some (g, [acts]) := by
  show (requestStep f b).map _ = _
  rw [h]
  rfl

section Line

variable {T : RequestTable} {rel : RequestPlace → T.State → Prop}
variable (follows : Follows T requestFragment RequestAction.isFlag rel) {buffer : Bytes}

variable (T rel buffer) in
/-- `Reads` for the request scanner. -/
abbrev ReadsRequest (f : RequestPlace) (m : HttpRequest) (bs : Bytes) (f' : RequestPlace)
    (m' : HttpRequest) : Prop :=
  Reads T requestFragment rel (RequestAction.act buffer) RequestAction.stops buffer f m bs f' m'

include follows

/-- A token of the request line whose first byte is marked. -/
theorem reads_marked {f g g' f' : RequestPlace} {m m' : HttpRequest} {b d : UInt8} {bs : Bytes}
    {acts : List RequestAction} (hstart : requestStep f b = some (g, [.mark]))
    (hwalk : requestFragment.walk g bs = some g') (hend : requestStep g' d = some (f', acts))
    (hacts : acts.any RequestAction.stops = false)
    (hreport : ∀ p rest s, buffer.drop p = b :: bs ++ rest → Holding m s → s.mark = p →
      ∃ s', runActions (RequestAction.act buffer) (p + (b :: bs).length) acts s = some s' ∧
        Holding m' s') :
    ReadsRequest T rel buffer f m (b :: bs ++ [d]) f' m' :=
  Reads.token (requestFlags buffer) follows ParserData.mark acts (fragment_step hstart) hwalk
    (fragment_step hend) rfl hacts
    (fun p s hs => ⟨{ s with mark := p }, rfl, hs, rfl⟩) hreport

omit follows in
theorem walk_method {n : ℕ} {bs : Bytes} (hbs : ∀ b ∈ bs, isMethodChar b = true)
    (hn : n + bs.length ≤ 20) :
    requestFragment.walk (.method n) bs = some (.method (n + bs.length)) := by
  induction bs generalizing n with
  | nil => rfl
  | cons b bs ih =>
    rw [List.length_cons] at hn ⊢
    have hb : isMethodChar b = true := hbs b List.mem_cons_self
    have hblank : b ≠ 32 := by
      rintro rfl
      exact Bool.false_ne_true hb
    have hstep : requestStep (.method n) b = some (.method (n + 1), []) := by
      rw [requestStep, if_neg hblank, if_pos]
      simp only [hb, Bool.true_and, decide_eq_true_eq]
      omega
    refine Fragment.walk_cons_eq_some.mpr ⟨_, fragment_step hstep, ?_⟩
    rw [ih (fun b' hb' => hbs b' (List.mem_cons_of_mem _ hb')) (by omega)]
    congr 2
    omega

/-! ### The tokens of the request line -/

omit follows in
theorem httpMethodMap_admitted : ∀ e ∈ httpMethodMap, e.1 ≠ .msearch →
    e.2 ≠ [] ∧ e.2.length ≤ 20 ∧ ∀ b ∈ e.2, isMethodChar b = true := by
  decide

omit follows in
/-- The names of the methods that the grammar admits. -/
theorem httpMethodToString_admitted {m : HttpMethod} (hm : m ≠ .msearch ∧ m ≠ .invalidMethod) :
    ∃ b bs, httpMethodToString m = b :: bs ∧ (m, b :: bs) ∈ httpMethodMap ∧ bs.length < 20 ∧
      ∀ c ∈ b :: bs, isMethodChar c = true := by
  have hmem : (m, httpMethodToString m) ∈ httpMethodMap := by
    cases m <;> first | decide | exact absurd rfl hm.2
  obtain ⟨hne, hlen, hchars⟩ := httpMethodMap_admitted _ hmem hm.1
  obtain ⟨b, bs, hname⟩ := List.exists_cons_of_ne_nil hne
  simp only at hname hlen hchars
  rw [hname] at hmem hlen hchars
  exact ⟨b, bs, hname, hmem, hlen, hchars⟩

theorem reads_method {r : HttpRequest} {m : HttpMethod}
    (hm : m ≠ .msearch ∧ m ≠ .invalidMethod) :
    ReadsRequest T rel buffer .start r (httpMethodToString m ++ [32]) .uri (r.setMethod m) := by
  obtain ⟨b, bs, hname, hmem, hlen, hchars⟩ := httpMethodToString_admitted hm
  rw [hname]
  have hstart : requestStep .start b = some (.method 1, [.mark]) :=
    if_pos (hchars b List.mem_cons_self)
  have hwalk : requestFragment.walk (.method 1) bs = some (.method (1 + bs.length)) :=
    walk_method (fun b' hb' => hchars b' (List.mem_cons_of_mem _ hb')) (by omega)
  have hend : requestStep (.method (1 + bs.length)) 32 = some (.uri, [.requestMethod]) := rfl
  refine reads_marked follows hstart hwalk hend rfl fun p rest s hbuffer hs hmark => ?_
  -- the callback compares the bytes from the mark on with the names of the table
  have hmethod : charsToHttpMethod (buffer.drop s.mark) = m := by
    refine (charsToHttpMethod_eq_iff hm.2).mpr ⟨_, hmem, rfl, ?_⟩
    rw [hmark, hbuffer]
    exact List.prefix_append _ _
  refine ⟨{ s with message := s.message.setMethod m }, ?_, by rw [hs.1], hs.2⟩
  rw [runActions_singleton]
  show some (onRequestMethod buffer s s.mark) = _
  rw [onRequestMethod]
  simp only [hmethod, if_neg hm.2]

omit follows in
/-- The callbacks that store the token itself. -/
theorem report_text {a : RequestAction} (reg : RequestData → ℕ)
    (set : HttpRequest → Bytes → HttpRequest) {acts : List RequestAction} {tok : Bytes}
    {r : HttpRequest} (hlen : tok.length < 2 ^ 63)
    (hact : ∀ fpc s, RequestAction.act buffer fpc a s =
      (stringAt buffer (reg s) (len (reg s) fpc)).map fun v =>
        { s with message := set s.message v })
    (hacts : acts = [] ∨ acts = [.requestUri]) (p : ℕ) (rest : Bytes) (s : RequestData)
    (hbuffer : buffer.drop p = tok ++ rest) (hs : Holding r s) (hreg : reg s = p) :
    ∃ s', runActions (RequestAction.act buffer) (p + tok.length) (a :: acts) s = some s' ∧
      Holding (set r tok) s' := by
  refine ⟨{ s with message := set s.message tok }, ?_, by rw [hs.1], hs.2⟩
  rw [runActions, hact, hreg, len_eq hlen, stringAt_eq hbuffer hlen]
  -- the callback for the uri does nothing
  rcases hacts with rfl | rfl <;> rfl

theorem reads_path {r : HttpRequest} {path : Bytes} {d : UInt8} {f' : RequestPlace}
    {acts : List RequestAction} (hlen : (47 :: path).length < 2 ^ 63)
    (hhead : ∀ b ∈ path.head?, isPchar b = true) (hpath : ∀ b ∈ path, (isPchar b || b == 47) = true)
    (hslash : requestStep .slash d = some (f', .requestPath :: acts))
    (hend : requestStep .path d = some (f', .requestPath :: acts))
    (hacts : acts = [] ∨ acts = [.requestUri]) :
    ReadsRequest T rel buffer .uri r (47 :: path ++ [d]) f' (r.setPath (47 :: path)) := by
  have hstops : (RequestAction.requestPath :: acts).any RequestAction.stops = false := by
    rcases hacts with rfl | rfl <;> rfl
  cases path with
  | nil =>
    exact reads_marked follows (f := .uri) (g := .slash) rfl rfl hslash hstops
      (report_text ParserData.mark HttpRequest.setPath hlen (fun _ _ => rfl) hacts)
  | cons b bs =>
    have hb : requestStep .slash b = some (.path, []) := if_pos (hhead b rfl)
    have hloop : requestFragment.walk .path bs = some .path :=
      Fragment.walk_loop fun c hc =>
        fragment_step (if_pos (hpath c (List.mem_cons_of_mem _ hc)))
    exact reads_marked follows (f := .uri) (g := .slash) rfl
      (Fragment.walk_cons_eq_some.mpr ⟨_, fragment_step hb, hloop⟩) hend hstops
      (report_text ParserData.mark HttpRequest.setPath hlen (fun _ _ => rfl) hacts)

theorem reads_query {r : HttpRequest} {query : Bytes} {d : UInt8} {f' : RequestPlace}
    (hlen : query.length < 2 ^ 63) (hne : query ≠ []) (hquery : ∀ b ∈ query, isQueryChar b = true)
    (hend : requestStep .query d = some (f', [.queryString, .requestUri])) :
    ReadsRequest T rel buffer .queryStart r (query ++ [d]) f' (r.setQuery query) := by
  obtain ⟨b, bs, rfl⟩ := List.exists_cons_of_ne_nil hne
  have hb : requestStep .queryStart b = some (.query, [.startQuery]) :=
    if_pos (hquery b List.mem_cons_self)
  have hloop : requestFragment.walk .query bs = some .query :=
    Fragment.walk_loop fun c hc => fragment_step (if_pos (hquery c (List.mem_cons_of_mem _ hc)))
  exact Reads.token (requestFlags buffer) follows ParserData.queryStart _ (fragment_step hb)
    hloop (fragment_step hend) rfl rfl (fun p s hs => ⟨{ s with queryStart := p }, rfl, hs, rfl⟩)
    (report_text ParserData.queryStart HttpRequest.setQuery hlen (fun _ _ => rfl) (.inr rfl))

theorem reads_fragment {r : HttpRequest} {fragment : Bytes} (hlen : fragment.length < 2 ^ 63)
    (hne : fragment ≠ []) (hfragment : ∀ b ∈ fragment, isQueryChar b = true) :
    ReadsRequest T rel buffer .fragmentStart r (fragment ++ [32]) (.version 0)
      (r.setFragment fragment) := by
  obtain ⟨b, bs, rfl⟩ := List.exists_cons_of_ne_nil hne
  have hb : requestStep .fragmentStart b = some (.fragment, [.mark]) :=
    if_pos (hfragment b List.mem_cons_self)
  have hloop : requestFragment.walk .fragment bs = some .fragment :=
    Fragment.walk_loop fun c hc => fragment_step (if_pos (hfragment c (List.mem_cons_of_mem _ hc)))
  exact reads_marked follows hb hloop (d := 32) rfl rfl
    (report_text ParserData.mark HttpRequest.setFragment hlen (fun _ _ => rfl) (.inl rfl))

omit follows in
theorem lengths_of_dump {r : HttpRequest} (hsize : r.dump.length < 2 ^ 31) :
    r.path.length < 2 ^ 63 ∧ r.query.length < 2 ^ 63 ∧ r.fragment.length < 2 ^ 63 := by
  rw [HttpRequest.dump] at hsize
  simp only [List.length_append] at hsize
  omega

theorem reads_uri {r m : HttpRequest} (hr : r.Printable) (hsize : r.dump.length < 2 ^ 31) :
    ReadsRequest T rel buffer .uri m r.uriText (.version 0)
      { m with
        path := r.path
        query := if r.query = [] then m.query else r.query
        fragment := if r.fragment = [] then m.fragment else r.fragment } := by
  obtain ⟨path, hpath, hhead, hchars⟩ := hr.path
  obtain ⟨hpathLen, hqueryLen, hfragmentLen⟩ := lengths_of_dump hsize
  rw [hpath] at hpathLen
  have hfrag (m : HttpRequest) (hne : r.fragment ≠ []) :
      ReadsRequest T rel buffer .fragmentStart m (r.fragment ++ [32]) (.version 0)
        (m.setFragment r.fragment) := reads_fragment follows hfragmentLen hne hr.fragment
  rw [HttpRequest.uriText, hpath]
  by_cases hquery : r.query = [] <;> by_cases hfragment : r.fragment = [] <;>
    simp only [hquery, hfragment, if_true, if_false]
  · exact reads_path follows hpathLen hhead hchars (d := 32) rfl rfl (.inr rfl)
  · exact (reads_path follows hpathLen hhead hchars (d := 35) rfl rfl (.inr rfl)).append
      (hfrag _ hfragment)
  · exact (reads_path follows hpathLen hhead hchars (d := 63) rfl rfl (.inl rfl)).append
      (reads_query follows hqueryLen hquery hr.query (d := 32) rfl)
  · refine (reads_path follows hpathLen hhead hchars (d := 63) rfl rfl (.inl rfl)).append ?_
    exact (reads_query follows hqueryLen hquery hr.query (d := 35) rfl).append (hfrag _ hfragment)

theorem reads_version {r m : HttpRequest} (hr : r.version = 0x10 ∨ r.version = 0x11) :
    ReadsRequest T rel buffer (.version 0) m r.versionText .cr (m.setVersion r.version) := by
  obtain ⟨d, hd, htext⟩ := printedVersion_eq hr [13]
  rw [HttpRequest.versionText, htext]
  have hwalk : requestFragment.walk (.version 1) (bytes "TTP/1." ++ [d]) = some (.version 8) := by
    rcases hd with ⟨rfl, -⟩ | ⟨rfl, -⟩ <;> decide
  have hend : requestStep (.version 8) 13 = some (.cr, [.httpVersion]) := rfl
  refine reads_marked follows (f := .version 0) (g := .version 1) rfl hwalk hend rfl
    fun p rest s hbuffer hs hmark => ?_
  subst hmark
  refine ⟨{ s with message := s.message.setVersion r.version }, ?_, by rw [hs.1], hs.2⟩
  rw [runActions_singleton]
  show some (onRequestVersion buffer s s.mark (len s.mark _)) = _
  have hlen : (72 :: (bytes "TTP/1." ++ [d])).length = 8 := rfl
  rw [hlen, len_eq (by norm_num), onRequestVersion, strncmpEq_version hbuffer,
    strncmpEq_version hbuffer]
  rcases hd with ⟨rfl, hversion⟩ | ⟨rfl, hversion⟩
  · rw [if_neg (by decide), if_pos (by decide), hversion]
  · rw [if_pos (by decide), hversion]

omit follows

/-! ### Reading the headers -/

def requestFieldGrammar : FieldGrammar requestFragment where
  lineStart := .lineStart
  name := .name
  colon := .colon
  value := .value
  cr := .cr
  emptyCr := .cr
  afterEmpty := .lineStart
  mark := .mark
  startField := .startField
  writeField := .writeField
  startValue := .startValue
  writeValue := .writeValue
  skip := isBlank
  valueStart := isValueChar

theorem isBlank_of_isValueChar : ∀ b, isValueChar b = true → isBlank b = false := by
  intro b hb
  grind [isValueChar, isBlank]

theorem requestFieldRules (buffer : Bytes) :
    FieldRules requestFieldGrammar RequestAction.stops (RequestAction.act buffer) buffer
      HttpRequest.setHeader where
  start f hf b hb := by
    obtain rfl : f = .lineStart := hf.elim id id
    exact ⟨_, fragment_step (if_pos hb), fun as has => .inl (List.mem_singleton.mp has)⟩
  name b hb := fragment_step (if_pos hb)
  colon := rfl
  skip b hb := fragment_step (if_pos hb)
  value b hb := by
    refine fragment_step ?_
    show requestStep .colon b = _
    rw [requestStep, isBlank_of_isValueChar b hb, if_neg Bool.false_ne_true]
    exact if_pos hb
  more b hb := fragment_step (if_pos (Bool.or_eq_true_iff.mpr hb))
  last := rfl
  empty := rfl
  lf := rfl
  emptyLf := rfl
  blank := rfl
  stops := by decide
  actMark _ _ := rfl
  actStartField _ _ := rfl
  actWriteField _ _ := rfl
  actStartValue _ _ := rfl
  actWriteValue _ _ := rfl

theorem afterLines_eq (lines : List (Bytes × Bytes)) :
    requestFieldGrammar.afterLines .lineStart lines = .lineStart := by
  induction lines with
  | nil => rfl
  | cons e lines ih =>
    have hline : requestFieldGrammar.afterLine e.2 = .lineStart := ite_self _
    show requestFieldGrammar.afterLines (requestFieldGrammar.afterLine e.2) lines = _
    rw [hline]
    exact ih

end Line

/-! ### The printed headers -/

namespace HttpRequest

variable {r : HttpRequest}

theorem printed_lines (r : HttpRequest) :
    Printed r.headers.entries r.close (bytes "connect-length") r.body.length r.lines := by
  intro e he
  unfold lines at he
  rcases List.mem_append.mp he with he | he
  · rcases List.mem_cons.mp he with he | he
    · exact .inr (.inl he)
    · exact .inl he
  · split_ifs at he
    · exact absurd he List.not_mem_nil
    · exact .inr (.inr (List.mem_singleton.mp he))

theorem value_of_mem_lines (hr : r.Printable) {e : Bytes × Bytes} (he : e ∈ r.lines) :
    (∀ b ∈ e.2, isBlank b = true ∨ isValueChar b = true) ∧ ∀ b ∈ e.2.head?, isBlank b = false := by
  refine (printed_lines r).value
    (p := fun v => (∀ b ∈ v, isBlank b = true ∨ isValueChar b = true) ∧
      ∀ b ∈ v.head?, isBlank b = false) hr.values (fun v hv => ?_) he
  exact ⟨fun b hb => .inr (hv b hb),
    fun b hb => isBlank_of_isValueChar b (hv b (List.mem_of_head? hb))⟩

theorem length_lines_le (hr : r.Printable) :
    (r.lines.flatMap fun e => headerLine e.1 e.2).length ≤ r.dump.length := by
  rw [dump_eq hr.websocket fun e he => (hr.unframed e he).1, headText]
  simp only [List.length_append]
  omega

theorem setHeaders_eq {lines : List (Bytes × Bytes)} {m : HttpRequest}
    (h : ∀ e ∈ lines, ∀ b ∈ e.2.head?, isBlank b = false) :
    lines.foldl (fun m e => m.setHeader e.1 (e.2.dropWhile isBlank)) m =
      { m with headers := m.headers.insertAll lines } := by
  induction lines generalizing m with
  | nil => rfl
  | cons e lines ih =>
    have hvalue : e.2.dropWhile isBlank = e.2 := by
      have he := h e List.mem_cons_self
      cases hv : e.2 with
      | nil => rfl
      | cons b bs => rw [List.dropWhile_cons_of_neg (by simpa [hv] using he)]
    rw [List.foldl_cons, hvalue, ih fun e' he' => h e' (List.mem_cons_of_mem _ he')]
    rfl

/-- What the parser makes of the printed text. -/
def parsed (r : HttpRequest) : HttpRequest :=
  { method := r.method
    version := r.version
    path := r.path
    query := r.query
    fragment := r.fragment
    headers := RankedMap.empty.insertAll r.lines }

end HttpRequest

/-! ### The whole text -/

section Whole

variable {T : RequestTable} {rel : RequestPlace → T.State → Prop}
variable (follows : Follows T requestFragment RequestAction.isFlag rel)

include follows

theorem reads_head {r : HttpRequest} (hr : r.Printable) (hsize : r.dump.length < 2 ^ 31)
    (buffer : Bytes) :
    ReadsRequest T rel buffer .start {} r.headText .lastCr r.parsed := by
  have hmethod : ReadsRequest T rel buffer .start {} (httpMethodToString r.method ++ [32]) .uri
      (HttpRequest.setMethod {} r.method) := reads_method follows hr.method
  have huri (m : HttpRequest) : ReadsRequest T rel buffer .uri m r.uriText (.version 0) _ :=
    reads_uri follows hr hsize
  have hversion (m : HttpRequest) : ReadsRequest T rel buffer (.version 0) m r.versionText .cr
      (m.setVersion r.version) := reads_version follows hr.version
  have hlf (m : HttpRequest) : ReadsRequest T rel buffer .cr m [10] .lineStart m :=
    Reads.walk (requestFlags buffer) follows rfl
  have hlines (m : HttpRequest) : ReadsRequest T rel buffer .lineStart m
      (r.lines.flatMap fun e => headerLine e.1 e.2) .lineStart
      { m with headers := m.headers.insertAll r.lines } := by
    have hlen : ∀ e ∈ r.lines, e.1.length + e.2.length < 2 ^ 63 := by
      intro e he
      have hle := (length_of_mem_lines he).trans (HttpRequest.length_lines_le hr)
      omega
    have h := (requestFieldRules buffer).reads_lines (requestFlags buffer) follows
      r.lines (f := RequestPlace.lineStart) (m := m)
      hlen (.inl rfl)
      (fun e he => (HttpRequest.printed_lines r).name
        (p := fun name => name ≠ [] ∧ ∀ b ∈ name, isTokenChar b = true) hr.names (by decide)
        (by decide) he)
      (fun e he => (HttpRequest.value_of_mem_lines hr he).1)
    rw [afterLines_eq] at h
    exact HttpRequest.setHeaders_eq (m := m)
      (fun e he => (HttpRequest.value_of_mem_lines hr he).2) ▸ h
  -- the carriage return in front of the last line feed starts a field that never ends
  have hcr (m : HttpRequest) : ReadsRequest T rel buffer .lineStart m [13] .lastCr m := by
    intro p rest _
    have hstep : requestStep .lineStart 13 = some (.lastCr, [.startField]) := rfl
    refine follows.single (requestFlags buffer).act (requestFlags buffer).stops
      (fragment_step hstep) fun as has => ?_
    obtain rfl := List.mem_singleton.mp has
    exact ⟨rfl, fun s hs => ⟨{ s with fieldStart := p }, rfl, hs⟩⟩
  have hall := hmethod.append ((huri _).append ((hversion _).append ((hlf _).append
    ((hlines _).append (hcr _)))))
  have hquery : (if r.query = [] then [] else r.query) = r.query := by
    split_ifs with h
    · exact h.symm
    · rfl
  have hfragment : (if r.fragment = [] then [] else r.fragment) = r.fragment := by
    split_ifs with h
    · exact h.symm
    · rfl
  simp only [HttpRequest.setMethod, HttpRequest.setVersion, hquery, hfragment] at hall
  exact hall

/-- The parser reads the printed text up to the body without error. -/
theorem execute_dump {r : HttpRequest} (hr : r.Printable) (hsize : r.dump.length < 2 ^ 31)
    (queryStart : ℕ) (stale : Bytes) :
    ∃ parser, (HttpRequestParser.new T queryStart).execute (r.dump ++ stale) r.dump.length =
        some (r.headText.length + 1, parser, r.body ++ (r.dump ++ stale).drop r.body.length) ∧
      parser.hasError = false ∧ parser.isFinished = 1 ∧ parser.data.message = r.parsed := by
  have hdump : r.dump = r.headText ++ [10] ++ r.body :=
    HttpRequest.dump_eq hr.websocket fun e he => (hr.unframed e he).1
  have hne : r.dump.length ≠ 0 := by
    rw [hdump, List.length_append, List.length_append, List.length_singleton]
    omega
  have hmoves := reads_head follows hr hsize (r.dump ++ stale) 0 ([10] ++ r.body ++ stale)
    (by rw [hdump, List.drop_zero]; simp only [List.append_assoc])
  have hlast : requestStep .lastCr 10 = some (.finished, [.done]) := rfl
  obtain ⟨q, s, -, hq, hfinal, ⟨hmessage, herror⟩, hscan⟩ :=
    follows.scan_of_moves (requestFlags (r.dump ++ stale)).act
      (requestFlags (r.dump ++ stale)).stops (.init {} queryStart) (Holding r.parsed) hmoves
      ⟨rfl, rfl⟩ (fragment_step hlast) fun as has => by
        obtain rfl := List.mem_singleton.mp has
        exact ⟨rfl, fun s hs => ⟨s, rfl, hs⟩⟩
  refine ⟨{ cs := q, data := s }, ?_, hasError_eq_false_iff.mpr ⟨herror, hq⟩,
    isFinished_eq_one_iff.mpr ⟨hq, hfinal⟩, hmessage⟩
  have hrest : r.dump.drop (r.headText.length + 1) = r.body := by
    have hlen : r.headText.length + 1 = (r.headText ++ [10]).length := by
      rw [List.length_append, List.length_singleton]
    rw [hdump, hlen, List.drop_left]
  have hscan' := hscan r.body
  rw [← hdump] at hscan'
  have hreset : HttpRequestParser.reset (ParserData.init {} queryStart) = .init {} queryStart := rfl
  have hexec : (HttpRequestParser.new T queryStart).httpParserExecute (r.dump ++ stale)
      r.dump.length = some (r.headText.length + 1, { cs := q, data := s }) := by
    have hint : ¬toInt r.dump.length ≠ r.dump.length := not_not_intro (toInt_of_lt hsize)
    rw [HttpRequestParser.httpParserExecute, if_neg hne, if_neg hint, List.take_left,
      HttpRequestParser.new, hreset, hscan']
    rfl
  rw [HttpRequestParser.execute, hexec, Option.map_some, List.take_left, hrest]

end Whole

/-! ### The round trip -/

/-- No printed header is the one that the parser takes the length of the body from. -/
theorem getcontentLength_parsed {T : RequestTable} {r : HttpRequest} (hr : r.Printable)
    {parser : HttpRequestParser T} (hparser : parser.data.message = r.parsed) :
    parser.getcontentLength = 0 := by
  have hnone : r.parsed.headers.find (bytes "content-length") = none :=
    RankedMap.find_insertAll_of_ne fun e he => (HttpRequest.printed_lines r).name
      (p := fun name => caseRank name ≠ caseRank (bytes "content-length"))
      (fun e he => (hr.unframed e he).2) (by decide) (by decide) he
  rw [HttpRequestParser.getcontentLength, hparser, HeaderMap.getAs, hnone]

theorem recovers_parsed {r : HttpRequest} (hr : r.Printable) (hbody : r.body = []) :
    r.Recovers r.parsed where
  method := rfl
  path := rfl
  query := rfl
  fragment := rfl
  version := rfl
  headers := by
    have hlines : r.lines =
        (bytes "connection", connectionValue r.close) :: r.headers.entries := by
      rw [HttpRequest.lines, hbody]
      exact List.append_nil _
    show RankedMap.empty.insertAll r.lines = _
    rw [hlines]
    exact RankedMap.insertAll_entries fun e he => (hr.unframed e he).1

/-- A printed request goes through the parser exactly when it has no body, since the length of a
body is printed under a name that the parser does not know, and when its length is an `int`. -/
theorem roundTrips_iff {T : RequestTable} {rel : RequestPlace → T.State → Prop}
    (follows : Follows T requestFragment RequestAction.isFlag rel) {r : HttpRequest}
    (hr : r.Printable) (queryStart : ℕ) (stale : Bytes) :
    r.RoundTrips T queryStart stale ↔ r.body = [] ∧ r.dump.length < 2 ^ 31 := by
  have hdump : r.dump = r.headText ++ [10] ++ r.body :=
    HttpRequest.dump_eq hr.websocket fun e he => (hr.unframed e he).1
  constructor
  · rintro ⟨n, parser, data, hexec, -, -, -, hlength, -, -⟩
    -- a longer text fails the assertion about its length
    have hsize : r.dump.length < 2 ^ 31 := by
      rw [← toInt_eq_iff]
      by_contra hint
      have hne : r.dump.length ≠ 0 := by
        rw [hdump, List.length_append, List.length_append, List.length_singleton]
        omega
      rw [HttpRequestParser.execute, HttpRequestParser.httpParserExecute, if_neg hne,
        if_pos hint] at hexec
      cases hexec
    obtain ⟨parser', hexec', -, -, hparser⟩ := execute_dump follows hr hsize queryStart stale
    rw [hexec', Option.some.injEq, Prod.mk.injEq, Prod.mk.injEq] at hexec
    rw [← hexec.2.1, getcontentLength_parsed hr hparser] at hlength
    exact ⟨List.length_eq_zero_iff.mp hlength.symm, hsize⟩
  · rintro ⟨hbody, hsize⟩
    obtain ⟨parser, hexec, herror, hfinished, hparser⟩ :=
      execute_dump follows hr hsize queryStart stale
    refine ⟨_, parser, _, hexec, herror, hfinished, hparser ▸ recovers_parsed hr hbody, ?_, ?_, ?_⟩
    · rw [getcontentLength_parsed hr hparser, hbody]
      rfl
    · rw [hdump, List.length_append, List.length_append, List.length_singleton]
      omega
    · exact List.take_left

/-- A request with every optional part but a body. -/
def sampleRequest : HttpRequest :=
  { path := bytes "/a/b"
    query := bytes "k=v"
    fragment := bytes "top"
    headers := RankedMap.empty.insert (bytes "host") (bytes "example") }

theorem roundTrips_sample : sampleRequest.RoundTrips requestFragmentTable 0 [0, 0] :=
  (roundTrips_iff follows_fragmentTable
    { websocket := rfl
      version := .inr rfl
      method := by decide
      path := ⟨bytes "a/b", by decide, by decide, by decide⟩
      query := by decide
      fragment := by decide
      names := by decide
      values := by decide
      unframed := by decide } 0 [0, 0]).mpr ⟨rfl, by decide⟩

/-- A body of one byte: the request is read, but its length comes back as 0. -/
theorem not_roundTrips_body :
    ¬HttpRequest.RoundTrips requestFragmentTable { body := bytes "a" } 0 [] := by
  rintro ⟨n, parser, data, hexec, -, -, -, hlength, -⟩
  have hzero : ((HttpRequestParser.new requestFragmentTable 0).execute
      (HttpRequest.dump { body := bytes "a" } ++ [])
      (HttpRequest.dump { body := bytes "a" }).length).map
        (fun r => r.2.1.getcontentLength) = some 0 := by
    decide +kernel
  rw [hexec, Option.map_some, Option.some.injEq, hlength] at hzero
  exact absurd hzero (by decide)

end Muhui.Http
