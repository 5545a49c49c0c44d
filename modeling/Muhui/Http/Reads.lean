/-
  A header section that arrives in several reads.

  The parser remembers where a token began as an offset into the buffer of one `execute` call, and
  forgets it with the call.  `Arrives` describes the reads in which no such offset is ever used
  after its read: every token is reported in the read its first byte came in, and a header in the
  read its name began in.  For such reads the header loop ends with the request that the header
  section parses to in one piece, and with the surplus of the last read at the front of the buffer
  (`recvHeader_of_arrives`).
-/
import Muhui.Http.Session
import Muhui.Scanner.Reads

namespace Muhui.Http

open Scanner

/-! ### Registers -/

inductive Register | mark | fieldStart | fieldLen | queryStart
  deriving DecidableEq

/-- The registers an action reads.  The callback for the uri does nothing. -/
def RequestAction.uses : RequestAction → List Register
  | .writeField => [.fieldStart]
  | .writeValue => [.fieldStart, .fieldLen, .mark]
  | .requestMethod | .fragment | .httpVersion | .requestPath => [.mark]
  | .queryString => [.queryStart]
  | .mark | .startField | .startValue | .requestUri | .startQuery | .done | .xml | .json => []

/-- The registers that are live behind an action.  A new field start makes the length of the old
field stale. -/
def RequestAction.renew : RequestAction → List Register → List Register
  | .mark, live | .startValue, live => .mark :: live
  | .startField, live => .fieldStart :: live.filter (· ≠ .fieldLen)
  | .writeField, live => .fieldLen :: live
  | .startQuery, live => .queryStart :: live
  | _, live => live

/-- Every token and every header of `bs`, read from the state `q` on, is reported in this read. -/
abbrev Whole (T : RequestTable) (q : T.State) (bs : Bytes) : Prop :=
  Intact T RequestAction.stops RequestAction.uses RequestAction.renew q [] bs = true

/-! ### What is taken from the generated table -/

/-- Facts of the generated table: a final state is entered through `done` only, the error state is
never left, the method is reported at the first blank of the input, and `" - S"` behind a method is
an error. -/
structure Generated (T : RequestTable) : Prop where
  done_of_final : ∀ q b, T.isFinal (T.next q b).1 = true →
    (T.next q b).2.any RequestAction.stops = true
  start_not_final : T.isFinal T.start = false
  error_of_error : ∀ b, (T.next T.error b).1 = T.error
  method_at_blank : ∀ w b, .requestMethod ∈ (T.next (T.after T.start w) b).2 → b = 32 ∧ 32 ∉ w
  error_of_search : ∀ w, .requestMethod ∈ (T.next (T.after T.start w) 32).2 →
    T.after T.start (w ++ bytes " - S") = T.error

theorem Generated.after_error {T : RequestTable} (hT : Generated T) (bs : Bytes) :
    T.after T.error bs = T.error := by
  induction bs with
  | nil => rfl
  | cons b bs ih => rw [T.after_cons, hT.error_of_error, ih]

/-- What begins a text that is not an error is none. -/
theorem Generated.after_ne_error_of_prefix {T : RequestTable} (hT : Generated T) {w header : Bytes}
    (hafter : T.after T.start header ≠ T.error) (hw : w <+: header) :
    T.after T.start w ≠ T.error := by
  obtain ⟨rest, rfl⟩ := hw
  intro hdead
  rw [T.after_append, hdead, hT.after_error] at hafter
  exact hafter rfl

/-! ### One header section in one piece -/

/-- The request a header section parses to when it arrives in one read; `none` when the parser
rejects it or wants more. -/
def parseHeader (T : RequestTable) (header : Bytes) : Option HttpRequest :=
  match (HttpRequestParser.new T 0).execute header header.length with
  | none => none
  | some (n, parser, _) =>
    if n = header.length ∧ parser.hasError = false ∧ parser.isFinished = 1 then
      some parser.data.message
    else none

/-- A scan of the whole header section that ends in `q` with the data `s`. -/
def Parses (T : RequestTable) (header : Bytes) (q : T.State) (s : RequestData) : Prop :=
  scan T (RequestAction.act header) RequestAction.stops header 0 T.start (.init {} 0) =
      some (header.length, q, s) ∧
    q ≠ T.error ∧ T.isFinal q = true ∧ s.error = 0

theorem isFinished_eq_one_iff {T : RequestTable} {parser : HttpRequestParser T} :
    parser.isFinished = 1 ↔ parser.cs ≠ T.error ∧ T.isFinal parser.cs = true := by
  unfold HttpRequestParser.isFinished
  split_ifs <;> simp_all

theorem isFinished_eq_zero_iff {T : RequestTable} {parser : HttpRequestParser T} :
    parser.isFinished = 0 ↔ parser.cs ≠ T.error ∧ T.isFinal parser.cs = false := by
  unfold HttpRequestParser.isFinished
  split_ifs <;> simp_all

theorem hasError_eq_false_iff {T : RequestTable} {parser : HttpRequestParser T} :
    parser.hasError = false ↔ parser.data.error = 0 ∧ parser.cs ≠ T.error := by
  simp [HttpRequestParser.hasError]

theorem exists_parses {T : RequestTable} {header : Bytes} {r : HttpRequest} (hT : Generated T)
    (h : parseHeader T header = some r) :
    header ≠ [] ∧ ∃ q s, Parses T header q s ∧ s.message = r := by
  have hne : header ≠ [] := by
    rintro rfl
    have hnew : (HttpRequestParser.new T 0).isFinished ≠ 1 := by
      rw [Ne, isFinished_eq_one_iff]
      show ¬(T.start ≠ T.error ∧ T.isFinal T.start = true)
      rw [hT.start_not_final]
      simp
    simp [parseHeader, HttpRequestParser.execute, HttpRequestParser.httpParserExecute, hnew] at h
  have hlen : header.length ≠ 0 := fun h0 => hne (List.length_eq_zero_iff.mp h0)
  have hint : ¬toInt header.length ≠ header.length := by
    intro hwrap
    simp [parseHeader, HttpRequestParser.execute, HttpRequestParser.httpParserExecute, hlen, hwrap]
      at h
  have hexec : (HttpRequestParser.new T 0).httpParserExecute header header.length =
      (scan T (RequestAction.act header) RequestAction.stops header 0 T.start (.init {} 0)).map
        fun r => (r.1, { cs := r.2.1, data := r.2.2 }) := by
    rw [HttpRequestParser.httpParserExecute, if_neg hlen, if_neg hint, List.take_length]
    rfl
  rw [parseHeader, HttpRequestParser.execute, hexec] at h
  cases hscan : scan T (RequestAction.act header) RequestAction.stops header 0 T.start
      (.init {} 0) with
  | none =>
    rw [hscan] at h
    cases h
  | some result =>
    obtain ⟨n, q, s⟩ := result
    rw [hscan] at h
    simp only [Option.map_some] at h
    split_ifs at h with hcond
    obtain ⟨rfl, herror, hfinished⟩ := hcond
    obtain ⟨hq, hfinal⟩ := isFinished_eq_one_iff.mp hfinished
    exact ⟨hne, q, s, ⟨hscan, hq, hfinal, (hasError_eq_false_iff.mp herror).1⟩,
      Option.some.inj h⟩

/-! ### One read -/

/-- The data of a read that starts at `base`, at position `p` of the read, beside the data of the
scan of the whole: live registers hold the same place of the text. -/
structure Same (base p : ℕ) (live : List Register) (s₁ s₂ : RequestData) : Prop where
  message : s₁.message = s₂.message
  error : s₁.error = s₂.error
  mark : .mark ∈ live → s₁.mark ≤ p ∧ s₂.mark = base + s₁.mark
  fieldStart : .fieldStart ∈ live → s₁.fieldStart ≤ p ∧ s₂.fieldStart = base + s₁.fieldStart
  fieldLen : .fieldLen ∈ live → .fieldStart ∈ live →
    s₁.fieldStart + s₁.fieldLen ≤ p ∧ s₂.fieldLen = s₁.fieldLen
  queryStart : .queryStart ∈ live → s₁.queryStart ≤ p ∧ s₂.queryStart = base + s₁.queryStart

theorem len_add {base m p : ℕ} (hm : m ≤ p) : len (base + m) (base + p) = len m p := by
  have hsub : base + p + 2 ^ 64 - (base + m) = p + 2 ^ 64 - m := by omega
  rw [len, hsub, len]

/-- A read that starts at `base` in the header section, with the rest of the buffer behind it. -/
structure Piece (header buffer : Bytes) (base n : ℕ) : Prop where
  same : ∀ i ≤ n, ∀ l, i + l ≤ n → (buffer.drop i).take l = (header.drop (base + i)).take l

theorem Piece.of_append {header buffer piece tail rest : Bytes} {base : ℕ}
    (hheader : header.drop base = piece ++ tail) (hbuffer : buffer = piece ++ rest) :
    Piece header buffer base piece.length := by
  refine ⟨fun i hi l hl => ?_⟩
  have hdrop : l ≤ (piece.drop i).length := by
    rw [List.length_drop]
    omega
  rw [← List.drop_drop, hheader, hbuffer, List.drop_append_of_le_length hi,
    List.drop_append_of_le_length hi, List.take_append_of_le_length hdrop,
    List.take_append_of_le_length hdrop]

theorem Piece.stringAt {header buffer : Bytes} {base n i l : ℕ} (h : Piece header buffer base n)
    (hl : i + l ≤ n) : stringAt buffer i l = stringAt header (base + i) l := by
  rw [Http.stringAt, Http.stringAt, h.same i (by omega) l hl]

theorem Piece.strncmpEq {header buffer t : Bytes} {base n i l : ℕ} (h : Piece header buffer base n)
    (hl : i + l ≤ n) :
    strncmpEq (buffer.drop i) t l = strncmpEq (header.drop (base + i)) t l := by
  rw [← strncmpEq_take, h.same i (by omega) l hl, strncmpEq_take]

/-! ### The method -/

/-- Behind a blank the method callback does not look at anything, unless the line begins with the
name that has a blank in it. -/
theorem charsToHttpMethod_of_blank {tok x y : Bytes} (htok : 32 ∉ tok)
    (hvalid : charsToHttpMethod (tok ++ 32 :: x) ≠ .invalidMethod)
    (hx : ¬bytes "- SEARCH" <+: x) :
    charsToHttpMethod (tok ++ 32 :: y) = charsToHttpMethod (tok ++ 32 :: x) := by
  obtain ⟨e, he, hm, hprefix⟩ := (charsToHttpMethod_eq_iff hvalid).mp rfl
  refine (charsToHttpMethod_eq_iff hvalid).mpr ⟨e, he, hm, ?_⟩
  by_cases hblank : 32 ∈ e.2
  · -- only one name has a blank; it would put the rest of it behind the blank
    obtain rfl := (blank_mem_iff e he).mp hblank
    exact absurd (of_prefix_blank search_split (by decide) htok hprefix).2 hx
  · exact (prefix_of_blank hblank hprefix).trans (List.prefix_append _ _)

/-! ### The actions agree -/

section Same

variable {base p : ℕ} {live : List Register} {s₁ s₂ : RequestData}

theorem Same.setMark (h : Same base p live s₁ s₂) :
    Same base p (.mark :: live) { s₁ with mark := p } { s₂ with mark := base + p } :=
  { h with
    mark := fun _ => ⟨le_rfl, rfl⟩
    fieldStart := fun hm => h.fieldStart (by simpa using hm)
    fieldLen := fun hl hm => h.fieldLen (by simpa using hl) (by simpa using hm)
    queryStart := fun hm => h.queryStart (by simpa using hm) }

theorem Same.setFieldStart (h : Same base p live s₁ s₂) :
    Same base p (.fieldStart :: live.filter (· ≠ .fieldLen)) { s₁ with fieldStart := p }
      { s₂ with fieldStart := base + p } :=
  { h with
    mark := fun hm => h.mark (by simpa using hm)
    fieldStart := fun _ => ⟨le_rfl, rfl⟩
    -- the length belongs to the old field and is not live any more
    fieldLen := fun hl _ => absurd hl (by simp)
    queryStart := fun hm => h.queryStart (by simpa using hm) }

theorem Same.setFieldLen (h : Same base p live s₁ s₂) (hlive : .fieldStart ∈ live) :
    Same base p (.fieldLen :: live) { s₁ with fieldLen := len s₁.fieldStart p }
      { s₂ with fieldLen := len s₂.fieldStart (base + p) } := by
  obtain ⟨hle, hadd⟩ := h.fieldStart hlive
  exact
    { h with
      mark := fun hm => h.mark (by simpa using hm)
      fieldStart := fun _ => ⟨hle, hadd⟩
      fieldLen := fun _ _ => ⟨add_len_le hle, by rw [hadd, len_add hle]⟩
      queryStart := fun hm => h.queryStart (by simpa using hm) }

theorem Same.setQueryStart (h : Same base p live s₁ s₂) :
    Same base p (.queryStart :: live) { s₁ with queryStart := p }
      { s₂ with queryStart := base + p } :=
  { h with
    mark := fun hm => h.mark (by simpa using hm)
    fieldStart := fun hm => h.fieldStart (by simpa using hm)
    fieldLen := fun hl hm => h.fieldLen (by simpa using hl) (by simpa using hm)
    queryStart := fun _ => ⟨le_rfl, rfl⟩ }

theorem Same.setRequest (h : Same base p live s₁ s₂) (f : HttpRequest → HttpRequest) :
    Same base p live { s₁ with message := f s₁.message } { s₂ with message := f s₂.message } :=
  { h with message := congrArg f h.message }

theorem Same.mono (h : Same base p live s₁ s₂) : Same base (p + 1) live s₁ s₂ :=
  { h with
    mark := fun hm => ⟨(h.mark hm).1.trans (Nat.le_succ p), (h.mark hm).2⟩
    fieldStart := fun hm => ⟨(h.fieldStart hm).1.trans (Nat.le_succ p), (h.fieldStart hm).2⟩
    fieldLen := fun hl hm => ⟨(h.fieldLen hl hm).1.trans (Nat.le_succ p), (h.fieldLen hl hm).2⟩
    queryStart := fun hm => ⟨(h.queryStart hm).1.trans (Nat.le_succ p), (h.queryStart hm).2⟩ }

/-- A callback that is handed a token between a live register and the current byte. -/
theorem Same.token {header buffer : Bytes} {n m₁ m₂ : ℕ} (h : Same base p live s₁ s₂)
    (hpiece : Piece header buffer base n) (hp : p ≤ n) (hm₁ : m₁ ≤ p) (hm₂ : m₂ = base + m₁)
    (f : Bytes → HttpRequest → HttpRequest) {s₂' : RequestData}
    (hact : (stringAt header m₂ (len m₂ (base + p))).map
      (fun v => { s₂ with message := f v s₂.message }) = some s₂') :
    ∃ s₁', (stringAt buffer m₁ (len m₁ p)).map
      (fun v => { s₁ with message := f v s₁.message }) = some s₁' ∧ Same base p live s₁' s₂' := by
  rw [hm₂, len_add hm₁, ← hpiece.stringAt ((add_len_le hm₁).trans hp)] at hact
  obtain ⟨v, hv, rfl⟩ := Option.map_eq_some_iff.mp hact
  exact ⟨_, by rw [hv]; rfl, h.setRequest (f v)⟩

theorem Same.version {header buffer : Bytes} {n : ℕ} (h : Same base p live s₁ s₂)
    (hpiece : Piece header buffer base n) (hp : p ≤ n) (hlive : .mark ∈ live) :
    Same base p live (onRequestVersion buffer s₁ s₁.mark (len s₁.mark p))
      (onRequestVersion header s₂ s₂.mark (len s₂.mark (base + p))) := by
  obtain ⟨hle, hadd⟩ := h.mark hlive
  have hsame (t : Bytes) : strncmpEq (header.drop s₂.mark) t (len s₂.mark (base + p)) =
      strncmpEq (buffer.drop s₁.mark) t (len s₁.mark p) := by
    rw [hadd, len_add hle, hpiece.strncmpEq ((add_len_le hle).trans hp)]
  unfold onRequestVersion
  rw [hsame, hsame]
  split_ifs
  · exact h.setRequest (·.setVersion 0x11)
  · exact h.setRequest (·.setVersion 0x10)
  · exact { h with error := rfl }

theorem Same.field {header buffer : Bytes} {n : ℕ} (h : Same base p live s₁ s₂)
    (hpiece : Piece header buffer base n) (hp : p ≤ n) (hmark : .mark ∈ live)
    (hstart : .fieldStart ∈ live) (hlen : .fieldLen ∈ live) {s₂' : RequestData}
    (hact : onRequestHttpField header s₂ s₂.fieldStart s₂.fieldLen s₂.mark
      (len s₂.mark (base + p)) = some s₂') :
    ∃ s₁', onRequestHttpField buffer s₁ s₁.fieldStart s₁.fieldLen s₁.mark (len s₁.mark p) =
      some s₁' ∧ Same base p live s₁' s₂' := by
  obtain ⟨hle, hadd⟩ := h.mark hmark
  obtain ⟨hfle, hfadd⟩ := h.fieldStart hstart
  obtain ⟨hbound, heq⟩ := h.fieldLen hlen hstart
  have hname : stringAt header s₂.fieldStart s₂.fieldLen =
      stringAt buffer s₁.fieldStart s₁.fieldLen := by
    rw [heq, hfadd, hpiece.stringAt (hbound.trans hp)]
  have hvalue : stringAt header s₂.mark (len s₂.mark (base + p)) =
      stringAt buffer s₁.mark (len s₁.mark p) := by
    rw [hadd, len_add hle, hpiece.stringAt ((add_len_le hle).trans hp)]
  unfold onRequestHttpField onHttpField at hact ⊢
  rw [hname, hvalue] at hact
  by_cases h0 : s₁.fieldLen = 0
  · rw [if_pos (heq.trans h0)] at hact
    obtain rfl := Option.some.inj hact
    exact ⟨s₁, if_pos h0, h⟩
  · rw [if_neg fun h => h0 (heq.symm.trans h)] at hact
    rw [if_neg h0]
    obtain ⟨f, hf, hact⟩ := Option.bind_eq_some_iff.mp hact
    obtain ⟨v, hv, rfl⟩ := Option.map_eq_some_iff.mp hact
    exact ⟨_, by rw [hf, hv]; rfl, h.setRequest (·.setHeader f v)⟩

theorem Same.method {header buffer : Bytes} (h : Same base p live s₁ s₂)
    (hmethod : charsToHttpMethod (buffer.drop s₁.mark) = charsToHttpMethod (header.drop s₂.mark)) :
    Same base p live (onRequestMethod buffer s₁ s₁.mark) (onRequestMethod header s₂ s₂.mark) := by
  simp only [onRequestMethod]
  rw [hmethod]
  split_ifs
  · exact { h with error := rfl }
  · exact h.setRequest (·.setMethod _)

end Same

/-- What follows the method of an accepted header section does not complete the name with the
blank. -/
theorem not_search_of_after {T : RequestTable} (hT : Generated T) {w x : Bytes}
    (hw : .requestMethod ∈ (T.next (T.after T.start w) 32).2)
    (hafter : T.after T.start (w ++ 32 :: x) ≠ T.error) : ¬bytes "- SEARCH" <+: x := by
  rintro ⟨t, rfl⟩
  have hsplit : w ++ 32 :: (bytes "- SEARCH" ++ t) = w ++ bytes " - S" ++ (bytes "EARCH" ++ t) := by
    rw [List.append_assoc]
    rfl
  rw [hsplit] at hafter
  exact hT.after_ne_error_of_prefix hafter (List.prefix_append _ _) (hT.error_of_search w hw)

/-- The method callback answers the same in the read as in the whole header section. -/
theorem Piece.method {T : RequestTable} (hT : Generated T) {header buffer : Bytes} {base n m p : ℕ}
    (hafter : T.after T.start header ≠ T.error) (hpiece : Piece header buffer base n) (hmp : m ≤ p)
    (hp : p < n) (hb : header[base + p]? = some 32) (hw : 32 ∉ header.take (base + p))
    (hmethod : .requestMethod ∈ (T.next (T.after T.start (header.take (base + p))) 32).2)
    (hvalid : charsToHttpMethod (header.drop (base + m)) ≠ .invalidMethod) :
    charsToHttpMethod (buffer.drop m) = charsToHttpMethod (header.drop (base + m)) := by
  obtain ⟨hlt, hget⟩ := List.getElem?_eq_some_iff.mp hb
  have hblank : header.drop (base + p) = 32 :: header.drop (base + p + 1) := by
    rw [← hget]
    exact List.drop_eq_getElem_cons hlt
  have hsplit (l : Bytes) : l.drop m = (l.drop m).take (p - m) ++ l.drop p := by
    have hdrop : l.drop p = (l.drop m).drop (p - m) := by
      rw [List.drop_drop]
      congr 1
      omega
    rw [hdrop, List.take_append_drop]
  have hheader : header.drop (base + m) =
      (header.drop (base + m)).take (p - m) ++ 32 :: header.drop (base + p + 1) := by
    rw [← hblank, ← List.drop_drop, ← List.drop_drop]
    exact hsplit (header.drop base)
  -- the blank is in the read as well
  obtain ⟨y, hy⟩ : ∃ y, buffer.drop p = 32 :: y := by
    have hone : (buffer.drop p).take 1 = [32] := by
      rw [hpiece.same p hp.le 1 hp, hblank]
      rfl
    cases hdrop : buffer.drop p with
    | nil => simp [hdrop] at hone
    | cons c y =>
      rw [hdrop, List.take_succ_cons, List.take_zero, List.singleton_inj] at hone
      exact ⟨y, by rw [hone]⟩
  have hbuffer : buffer.drop m = (header.drop (base + m)).take (p - m) ++ 32 :: y := by
    rw [← hpiece.same m (by omega) (p - m) (by omega), ← hy]
    exact hsplit buffer
  have htok : 32 ∉ (header.drop (base + m)).take (p - m) := by
    intro h
    refine hw (List.mem_of_mem_drop (i := base + m) ?_)
    rw [List.drop_take, show base + p - (base + m) = p - m by omega]
    exact h
  have hsearch : ¬bytes "- SEARCH" <+: header.drop (base + p + 1) := by
    refine not_search_of_after hT hmethod ?_
    rw [← hblank, List.take_append_drop]
    exact hafter
  rw [hheader] at hvalid ⊢
  rw [hbuffer]
  exact charsToHttpMethod_of_blank htok hvalid hsearch

/-- The actions keep `Same`, as long as the scan of the whole goes well. -/
theorem readRule {T : RequestTable} (hT : Generated T) {header buffer : Bytes} {base n : ℕ}
    (hafter : T.after T.start header ≠ T.error) (hpiece : Piece header buffer base n) :
    ReadRule T RequestAction.stops RequestAction.uses RequestAction.renew
      (RequestAction.act buffer) (RequestAction.act header) (Same base) (fun s => s.error = 0)
      header base n where
  final := hT.done_of_final
  back _ _ _ _ h := (RequestAction.step h).error_back
  mono _ _ _ _ := Same.mono
  act p b a live s₁ s₂ s₂' hp hb ha huses h hact hgood := by
    cases a with
    | mark | startValue =>
      obtain rfl := Option.some.inj hact
      exact ⟨_, rfl, h.setMark⟩
    | startField =>
      obtain rfl := Option.some.inj hact
      exact ⟨_, rfl, h.setFieldStart⟩
    | writeField =>
      obtain rfl := Option.some.inj hact
      exact ⟨_, rfl, h.setFieldLen (huses _ List.mem_cons_self)⟩
    | startQuery =>
      obtain rfl := Option.some.inj hact
      exact ⟨_, rfl, h.setQueryStart⟩
    | requestUri | done | xml | json =>
      obtain rfl := Option.some.inj hact
      exact ⟨_, rfl, h⟩
    | writeValue =>
      exact h.field hpiece hp.le (huses _ (by simp [RequestAction.uses]))
        (huses _ (by simp [RequestAction.uses])) (huses _ (by simp [RequestAction.uses])) hact
    | fragment =>
      obtain ⟨hle, hadd⟩ := h.mark (huses _ List.mem_cons_self)
      exact h.token hpiece hp.le hle hadd (fun v r => r.setFragment v) hact
    | requestPath =>
      obtain ⟨hle, hadd⟩ := h.mark (huses _ List.mem_cons_self)
      exact h.token hpiece hp.le hle hadd (fun v r => r.setPath v) hact
    | queryString =>
      obtain ⟨hle, hadd⟩ := h.queryStart (huses _ List.mem_cons_self)
      exact h.token hpiece hp.le hle hadd (fun v r => r.setQuery v) hact
    | httpVersion =>
      obtain rfl := Option.some.inj hact
      exact ⟨_, rfl, h.version hpiece hp.le (huses _ List.mem_cons_self)⟩
    | requestMethod =>
      obtain rfl := Option.some.inj hact
      obtain ⟨hle, hadd⟩ := h.mark (huses _ List.mem_cons_self)
      obtain ⟨rfl, hw⟩ := hT.method_at_blank _ b ha
      have hvalid : charsToHttpMethod (header.drop s₂.mark) ≠ .invalidMethod := by
        intro hinvalid
        simp only [onRequestMethod] at hgood
        rw [if_pos hinvalid] at hgood
        exact Nat.succ_ne_zero 999 hgood
      refine ⟨_, rfl, h.method ?_⟩
      rw [hadd] at hvalid ⊢
      exact hpiece.method hT hafter hle hp hb hw ha hvalid

end Muhui.Http
