/-
  What an accepted request is made of.

  The rows of the generated request scanner tell which bytes a token can have.  What is known in a
  state, of the bytes behind the mark and of those of the name, is computed along the rows, an
  action that reports a token is checked where it is taken (`keepsCheck`), and so every request that
  is returned has only such bytes in its parts, whatever arrives and in whatever pieces.

  The query is not among the parts: its register outlives a call, so behind a read that ends in a
  query it is any text of the buffer.
-/
import Muhui.Http.Generated

namespace Muhui.Http

open Scanner

/-! ### The parts -/

/-- The parts of a request that are reported with the mark or as a name. -/
inductive Part
  | path | fragment | name | value
  deriving DecidableEq

/-- The bytes of a part. -/
def Part.ranges : Part → List (ℕ × ℕ)
  -- no blank and no line end; the counts of the digits of an IPv6 address are read as bytes
  | .path =>
    [(2, 6), (33, 33), (36, 61), (64, 91), (93, 95), (97, 123), (125, 126), (128, 255)]
  | .fragment =>
    [(33, 33), (36, 59), (61, 61), (63, 90), (94, 95), (97, 123), (125, 126), (128, 255)]
  -- a control character may stand in a name, also one that ends a line
  | .name =>
    [(1, 8), (10, 31), (33, 33), (35, 39), (42, 43), (45, 46), (48, 57), (65, 90), (94, 122),
      (124, 124), (126, 126)]
  | .value => [(1, 9), (11, 12), (14, 126), (128, 255)]

def Part.has (c : Part) (b : UInt8) : Bool := inRanges c.ranges b

/-- What the scanner promises of a request. -/
structure HttpRequest.Clean (r : HttpRequest) : Prop where
  version : r.version = 0x10 ∨ r.version = 0x11
  method : r.method ≠ .invalidMethod
  path : ∀ b ∈ r.path, Part.path.has b = true
  fragment : ∀ b ∈ r.fragment, Part.fragment.has b = true
  headers : ∀ e ∈ r.headers.entries,
    (∀ b ∈ e.1, Part.name.has b = true) ∧ ∀ b ∈ e.2, Part.value.has b = true

/-! ### What is known of a token -/

/-- What is known of the bytes that have been read: the parts of which all since the mark are,
whether all since the beginning of the field are a name's, and whether the recorded name is one. -/
structure Known where
  mark : List Part
  field : Bool
  named : Bool

namespace Known

/-- What is known behind an action; `none` where it reports a token of which too little is. -/
def act (k : Known) : RequestAction → Option Known
  | .mark | .startValue => some { k with mark := [.path, .fragment, .name, .value] }
  | .startField => some { k with field := true, named := false }
  | .writeField => if k.field then some { k with named := true } else none
  | .writeValue => if k.named && k.mark.contains .value then some k else none
  | .fragment => if k.mark.contains .fragment then some k else none
  | .requestPath => if k.mark.contains .path then some k else none
  | _ => some k

def acts : List RequestAction → Known → Option Known
  | [], k => some k
  | a :: as, k => (k.act a).bind (acts as)

/-- What is known behind a byte in one of the ranges. -/
def absorb (k : Known) (ranges : List (ℕ × ℕ)) : Known :=
  { k with
    mark := k.mark.filter fun c => within ranges c.ranges
    field := k.field && within ranges Part.name.ranges }

/-- No more is known here than there. -/
def below (k k' : Known) : Bool :=
  k.mark.all k'.mark.contains && (!k.field || k'.field) && (!k.named || k'.named)

end Known

/-- The bytes of the buffer from `m` up to `p` are bytes of the part. -/
def Since (buffer : Bytes) (c : Part) (m p : ℕ) : Prop :=
  m ≤ p ∧ ∀ i b, m ≤ i → i < p → buffer[i]? = some b → c.has b = true

/-- The registers and the message are as it is known. -/
structure Holds (buffer : Bytes) (k : Known) (p : ℕ) (s : RequestData) : Prop where
  mark : ∀ c ∈ k.mark, Since buffer c s.mark p
  field : k.field = true → Since buffer .name s.fieldStart p
  named : k.named = true →
    ∀ v, stringAt buffer s.fieldStart s.fieldLen = some v → ∀ b ∈ v, Part.name.has b = true
  message : s.message.Clean

section Holds

variable {buffer v : Bytes} {c : Part} {k k' : Known} {m p : ℕ} {s s' : RequestData}

theorem since_self (buffer : Bytes) (c : Part) (p : ℕ) : Since buffer c p p := by
  refine ⟨Nat.le_refl p, fun i b hm hp => ?_⟩
  omega

theorem since_succ {b : UInt8} (h : Since buffer c m p) (hb : buffer[p]? = some b)
    (hc : c.has b = true) : Since buffer c m (p + 1) := by
  refine ⟨Nat.le_succ_of_le h.1, fun i b' hm hp hb' => ?_⟩
  rcases Nat.lt_succ_iff_lt_or_eq.mp hp with hlt | rfl
  · exact h.2 i b' hm hlt hb'
  · obtain rfl : b = b' := Option.some.inj (hb.symm.trans hb')
    exact hc

/-- The text between a register and the position. -/
theorem Since.stringAt (h : Since buffer c m p) (hv : stringAt buffer m (len m p) = some v) :
    ∀ b ∈ v, c.has b = true := by
  intro b hb
  unfold Http.stringAt at hv
  split_ifs at hv
  obtain rfl := Option.some.inj hv
  obtain ⟨i, hi⟩ := List.mem_iff_getElem?.mp hb
  rw [List.getElem?_take] at hi
  split_ifs at hi with hlt
  rw [List.getElem?_drop] at hi
  have hle := add_len_le h.1
  exact h.2 (m + i) b (Nat.le_add_right m i) (by omega) hi

theorem Holds.below (h : Holds buffer k' p s) (hk : k.below k' = true) : Holds buffer k p s := by
  simp only [Known.below, Bool.and_eq_true, Bool.or_eq_true, Bool.not_eq_true',
    List.all_eq_true, List.contains_iff_mem] at hk
  obtain ⟨⟨hmark, hfield⟩, hnamed⟩ := hk
  refine ⟨fun c hc => h.mark c (hmark c hc), fun hk => h.field ?_, fun hk => h.named ?_, h.message⟩
  · exact hfield.resolve_left (by simp [hk])
  · exact hnamed.resolve_left (by simp [hk])

/-- The next byte. -/
theorem Holds.absorb {b : UInt8} {ranges : List (ℕ × ℕ)} (h : Holds buffer k p s)
    (hb : buffer[p]? = some b) (hranges : inRanges ranges b = true) :
    Holds buffer (k.absorb ranges) (p + 1) s where
  mark c hc := by
    obtain ⟨hmem, hwithin⟩ := List.mem_filter.mp hc
    exact since_succ (h.mark c hmem) hb (inRanges_of_within hwithin hranges)
  field hk := by
    obtain ⟨hfield, hwithin⟩ := Bool.and_eq_true_iff.mp hk
    exact since_succ (h.field hfield) hb (inRanges_of_within hwithin hranges)
  named := h.named
  message := h.message

/-- A message with other parts, the registers as they were. -/
theorem Holds.report {message : HttpRequest} (h : Holds buffer k p s) (hmessage : message.Clean) :
    Holds buffer k p { s with message } :=
  ⟨h.mark, h.field, h.named, hmessage⟩

theorem clean_setHeader {r : HttpRequest} (h : r.Clean) {f v : Bytes}
    (hf : ∀ b ∈ f, Part.name.has b = true) (hv : ∀ b ∈ v, Part.value.has b = true) :
    (r.setHeader f v).Clean where
  version := h.version
  method := h.method
  path := h.path
  fragment := h.fragment
  headers :=
    RankedMap.forall_assign (P := fun f => ∀ b ∈ f, Part.name.has b = true)
      (Q := fun v => ∀ b ∈ v, Part.value.has b = true) hf hv h.headers

theorem clean_onRequestMethod (at_ : ℕ) (h : s.message.Clean) :
    (onRequestMethod buffer s at_).message.Clean := by
  simp only [onRequestMethod]
  split_ifs with hinvalid
  · exact h
  · exact ⟨h.version, hinvalid, h.path, h.fragment, h.headers⟩

theorem clean_onRequestVersion (at_ length : ℕ) (h : s.message.Clean) :
    (onRequestVersion buffer s at_ length).message.Clean := by
  unfold onRequestVersion
  split_ifs
  · exact ⟨.inr rfl, h.method, h.path, h.fragment, h.headers⟩
  · exact ⟨.inl rfl, h.method, h.path, h.fragment, h.headers⟩
  · exact h

/-- **One action.** What is known behind an action holds there. -/
theorem Holds.act {a : RequestAction} (h : Holds buffer k p s) (hk : k.act a = some k')
    (ha : a.act buffer p s = some s') : Holds buffer k' p s' := by
  cases a <;> simp only [RequestAction.act, Option.some.injEq] at ha
  case mark | startValue =>
    obtain rfl := Option.some.inj hk
    subst ha
    exact ⟨fun c _ => since_self buffer c p, h.field, h.named, h.message⟩
  case startField =>
    obtain rfl := Option.some.inj hk
    subst ha
    exact ⟨h.mark, fun _ => since_self buffer _ p, fun hk => absurd hk Bool.false_ne_true,
      h.message⟩
  case writeField =>
    simp only [Known.act] at hk
    split_ifs at hk with hfield
    obtain rfl := Option.some.inj hk
    subst ha
    -- the name is what has been read since the beginning of the field
    exact ⟨h.mark, h.field, fun _ v => (h.field hfield).stringAt, h.message⟩
  case writeValue =>
    simp only [Known.act] at hk
    split_ifs at hk with hknown
    obtain rfl := Option.some.inj hk
    rw [Bool.and_eq_true_iff, List.contains_iff_mem] at hknown
    simp only [onRequestHttpField, onHttpField] at ha
    split_ifs at ha
    · obtain rfl := Option.some.inj ha
      exact h
    · obtain ⟨f, hf, ha⟩ := Option.bind_eq_some_iff.mp ha
      obtain ⟨v, hv, rfl⟩ := Option.map_eq_some_iff.mp ha
      exact h.report (clean_setHeader h.message (h.named hknown.1 f hf)
        ((h.mark .value hknown.2).stringAt hv))
  case fragment =>
    simp only [Known.act] at hk
    split_ifs at hk with hmark
    obtain rfl := Option.some.inj hk
    obtain ⟨v, hv, rfl⟩ := Option.map_eq_some_iff.mp ha
    have hpart := (h.mark .fragment (List.contains_iff_mem.mp hmark)).stringAt hv
    exact h.report ⟨h.message.version, h.message.method, h.message.path, hpart, h.message.headers⟩
  case requestPath =>
    simp only [Known.act] at hk
    split_ifs at hk with hmark
    obtain rfl := Option.some.inj hk
    obtain ⟨v, hv, rfl⟩ := Option.map_eq_some_iff.mp ha
    have hpart := (h.mark .path (List.contains_iff_mem.mp hmark)).stringAt hv
    exact h.report
      ⟨h.message.version, h.message.method, hpart, h.message.fragment, h.message.headers⟩
  case requestMethod =>
    obtain rfl := Option.some.inj hk
    subst ha
    have hclean : (onRequestMethod buffer s s.mark).message.Clean :=
      clean_onRequestMethod s.mark h.message
    simp only [onRequestMethod] at hclean ⊢
    split_ifs at hclean ⊢
    · exact ⟨h.mark, h.field, h.named, h.message⟩
    · exact h.report hclean
  case httpVersion =>
    obtain rfl := Option.some.inj hk
    subst ha
    have hclean : (onRequestVersion buffer s s.mark (len s.mark p)).message.Clean :=
      clean_onRequestVersion s.mark (len s.mark p) h.message
    unfold onRequestVersion at hclean ⊢
    split_ifs at hclean ⊢
    · exact h.report hclean
    · exact h.report hclean
    · exact ⟨h.mark, h.field, h.named, h.message⟩
  case queryString =>
    obtain rfl := Option.some.inj hk
    obtain ⟨v, -, rfl⟩ := Option.map_eq_some_iff.mp ha
    exact h.report ⟨h.message.version, h.message.method, h.message.path, h.message.fragment,
      h.message.headers⟩
  all_goals
    obtain rfl := Option.some.inj hk
    subst ha
    exact ⟨h.mark, h.field, h.named, h.message⟩

/-- The actions of a transition. -/
theorem Holds.acts {as : List RequestAction} (h : Holds buffer k p s)
    (hk : Known.acts as k = some k') (ha : runActions (RequestAction.act buffer) p as s = some s') :
    Holds buffer k' p s' := by
  induction as generalizing k s with
  | nil =>
    obtain rfl := Option.some.inj hk
    obtain rfl := Option.some.inj ha
    exact h
  | cons a as ih =>
    obtain ⟨k₁, hk₁, hk⟩ := Option.bind_eq_some_iff.mp hk
    obtain ⟨s₁, hs₁, ha⟩ := runActions_cons_eq_some.mp ha
    exact ih (h.act hk₁ hs₁) hk ha

end Holds

/-! ### The generated scanner -/

/-- The states in which the bytes behind the mark are of a path. -/
def inPath (q : ℕ) : Bool :=
  q == 19 || (24 ≤ q && q ≤ 28) || (33 ≤ q && q ≤ 174) || q == 194 || q == 195 || q == 198 ||
    (202 ≤ q && q ≤ 347)

/-- What is known in a state of the generated request scanner. -/
def known (q : ℕ) : Known :=
  if inPath q then ⟨[.path], false, false⟩
  else if 21 ≤ q && q ≤ 23 then ⟨[.fragment], false, false⟩
  -- a name may begin with the line end that would end the header section
  else if q = 14 || q = 18 || q = 348 then ⟨[], true, false⟩
  else if q = 15 then ⟨[], false, true⟩
  else if q = 16 then ⟨[.value], false, true⟩
  else ⟨[], false, false⟩

/-- What is known in the next state is known behind the actions and the byte of an entry. -/
def keepsCheck (q : ℕ) (e : Entry RequestAction) : Bool :=
  (Known.acts e.acts (known q)).any fun k => (known e.target).below (k.absorb e.ranges)

theorem keepsCheck_httpParser (uri_relaxed : Bool) :
    rowsAll keepsCheck (httpParserRows uri_relaxed) = true := by
  cases uri_relaxed <;> decide +kernel

section Scans

variable {uri_relaxed : Bool} {buffer : Bytes} {p q : ℕ} {s s' : RequestData}

/-- In the error state nothing is known. -/
theorem holds_error (uri_relaxed : Bool) (h : s.message.Clean) :
    Holds buffer (known (httpParser uri_relaxed).error) p s where
  mark _ hc := absurd hc List.not_mem_nil
  field hk := by cases hk
  named hk := by cases hk
  message := h

/-- **One byte.** What is known in a state holds when the scanner comes to it. -/
theorem holds_next {b : UInt8} (hb : buffer[p]? = some b) (h : Holds buffer (known q) p s)
    (hrun : runActions (RequestAction.act buffer) p ((httpParser uri_relaxed).next q b).2 s =
      some s') :
    Holds buffer (known ((httpParser uri_relaxed).next q b).1) (p + 1) s' := by
  rcases next_of_rowsAll (keepsCheck_httpParser uri_relaxed) q b with
    hnext | ⟨e, hcheck, hcovers, hnext⟩
  · rw [hnext] at hrun ⊢
    obtain rfl := Option.some.inj hrun
    exact holds_error uri_relaxed h.message
  · rw [hnext] at hrun ⊢
    obtain ⟨k, hk, hbelow⟩ := (Option.any_eq_true _ _).mp hcheck
    exact ((h.acts hk hrun).absorb hb hcovers).below hbelow

/-- A call begins with no register set, so nothing has been read that could be wrong. -/
theorem holds_reset (q : ℕ) (h : s.message.Clean) :
    Holds buffer (known q) 0 (HttpRequestParser.reset s) where
  mark c _ := since_self buffer c 0
  field _ := since_self buffer .name 0
  named _ v hv := by
    obtain rfl := Option.some.inj hv
    intro b hb
    cases hb
  message := h

theorem clean_default : HttpRequest.Clean {} where
  version := .inr rfl
  method := by decide
  path := by decide
  fragment := by decide
  headers := by decide

/-- A call of `execute` leaves a clean message clean. -/
theorem clean_of_execute {parser parser' : HttpRequestParser (httpParser uri_relaxed)}
    {data data' : Bytes} {length n : ℕ} (h : parser.execute data length = some (n, parser', data'))
    (hclean : parser.data.message.Clean) : parser'.data.message.Clean := by
  rcases HttpRequestParser.httpParserExecute_cases (HttpRequestParser.of_execute h).1 with
    ⟨-, -, rfl⟩ | ⟨-, -, hscan⟩
  · exact hclean
  · have hholds : Holds data (known parser'.cs) n parser'.data :=
      scan_keeps (I := fun q p s => Holds data (known q) p s) (fun q p b s s' => holds_next)
        (fun p p' s h => holds_error uri_relaxed h.message) (List.take_prefix length data) hscan
        (holds_reset parser.cs hclean)
    exact hholds.message

end Scans

/-- **What is accepted is clean.** Whatever arrives, in whatever pieces and with whatever in the
memory of the call, a request that `recvRequest` returns has a version and a method of the protocol,
no blank, line end, `"?"` or `"#"` in its path, no such byte in its fragment, no blank or colon in
the names of its headers, and no line end and no zero byte in their values. -/
theorem clean_of_recvRequest (uri_relaxed : Bool) {buffSize : ℕ} {mem : Uninit} {s s' : Socket}
    {r : HttpRequest}
    (h : recvRequest (httpParser uri_relaxed) buffSize mem s = (.request r, s')) : r.Clean := by
  obtain ⟨_, parser, _, _, _, body, hheader, rfl⟩ := request_of_recvRequest h
  have hclean : parser.data.message.Clean :=
    recvHeader_invariant (P := fun parser => parser.data.message.Clean)
      (fun _ _ _ _ _ _ => clean_of_execute) hheader clean_default
  exact ⟨hclean.version, hclean.method, hclean.path, hclean.fragment, hclean.headers⟩

/-- A path that the reads cut, of which the second half is reported. -/
theorem clean_of_recvRequest_cut :
    HttpRequest.Clean
      ((({} : HttpRequest).setPath (bytes "/b")).setHeader (bytes "Host") (bytes "a")) := by
  apply clean_of_recvRequest false
  show recvRequest (httpParser false) 64 ⟨List.replicate 64 0, 0⟩
    [some (bytes "GET /a"), some (bytes "/b HTTP/1.1\r\nHost: a\r\n\r\n")] = (_, [])
  decide +kernel

end Muhui.Http
