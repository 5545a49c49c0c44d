/-
  HTTP messages and how they are printed.

  Requests and responses carry the fields that printing and parsing touch.  Their headers are a map
  compared without case, so `setHeader` keeps the spelling of the name that came first, and `dump`
  prints the headers in the order of the map.
-/
import Muhui.Http.Bytes
import Muhui.Container.RankedMap

namespace Muhui.Http

/-! ### Methods and status codes -/

inductive HttpMethod
  | delete | get | head | post | put
  | connect | options | trace
  | copy | lock | mkcol | move | propfind | proppatch | search | unlock | bind | rebind | unbind
  | acl
  | report | mkactivity | checkout | merge
  | msearch | notify | subscribe | unsubscribe
  | patch | purge
  | mkcalendar
  | link | unlink
  | source
  | invalidMethod
  deriving DecidableEq

/-- The methods in the order of their numbers, with the strings the table gives them. -/
def httpMethodMap : List (HttpMethod × Bytes) :=
  [(.delete, bytes "DELETE"), (.get, bytes "GET"), (.head, bytes "HEAD"), (.post, bytes "POST"),
    (.put, bytes "PUT"), (.connect, bytes "CONNECT"), (.options, bytes "OPTIONS"),
    (.trace, bytes "TRACE"), (.copy, bytes "COPY"), (.lock, bytes "LOCK"),
    (.mkcol, bytes "MKCOL"), (.move, bytes "MOVE"), (.propfind, bytes "PROPFIND"),
    (.proppatch, bytes "PROPPATCH"), (.search, bytes "SEARCH"), (.unlock, bytes "UNLOCK"),
    (.bind, bytes "BIND"), (.rebind, bytes "REBIND"), (.unbind, bytes "UNBIND"),
    (.acl, bytes "ACL"), (.report, bytes "REPORT"), (.mkactivity, bytes "MKACTIVITY"),
    (.checkout, bytes "CHECKOUT"), (.merge, bytes "MERGE"), (.msearch, bytes "M - SEARCH"),
    (.notify, bytes "NOTIFY"), (.subscribe, bytes "SUBSCRIBE"),
    (.unsubscribe, bytes "UNSUBSCRIBE"), (.patch, bytes "PATCH"), (.purge, bytes "PURGE"),
    (.mkcalendar, bytes "MKCALENDAR"), (.link, bytes "LINK"), (.unlink, bytes "UNLINK"),
    (.source, bytes "SOURCE")]

/-- The method whose string is `m`. -/
def stringToHttpMethod (m : Bytes) : HttpMethod :=
  ((httpMethodMap.find? fun e => strcmpEq e.2 m).map Prod.fst).getD .invalidMethod

/-- The first method of the table whose string `m` starts with. -/
def charsToHttpMethod (m : Bytes) : HttpMethod :=
  ((httpMethodMap.find? fun e => strncmpEq e.2 m e.2.length).map Prod.fst).getD .invalidMethod

def httpMethodToString (m : HttpMethod) : Bytes :=
  ((httpMethodMap.find? fun e => e.1 = m).map Prod.snd).getD (bytes "<unknown>")

/-- The status codes with their descriptions. -/
def httpStatusMap : List (Int32 × Bytes) :=
  [(100, bytes "Continue"), (101, bytes "Switching Protocols"), (102, bytes "Processing"),
    (200, bytes "OK"), (201, bytes "Created"), (202, bytes "Accepted"),
    (203, bytes "Non - Authoritative Information"), (204, bytes "No Content"),
    (205, bytes "Reset Content"), (206, bytes "Partial Content"), (207, bytes "Multi - Status"),
    (208, bytes "Already Reported"), (226, bytes "IM Used"), (300, bytes "Multiple Choices"),
    (301, bytes "Moved Permanently"), (302, bytes "Found"), (303, bytes "See Other"),
    (304, bytes "Not Modified"), (305, bytes "Use Proxy"), (307, bytes "Temporary Redirect"),
    (308, bytes "Permanent Redirect"), (400, bytes "Bad Request"), (401, bytes "Unauthorized"),
    (402, bytes "Payment Required"), (403, bytes "Forbidden"), (404, bytes "Not Found"),
    (405, bytes "Method Not Allowed"), (406, bytes "Not Acceptable"),
    (407, bytes "Proxy Authentication Required"), (408, bytes "Request Timeout"),
    (409, bytes "Conflict"), (410, bytes "Gone"), (411, bytes "Length Required"),
    (412, bytes "Precondition Failed"), (413, bytes "Payload Too Large"),
    (414, bytes "URI Too Long"), (415, bytes "Unsupported Media Type"),
    (416, bytes "Range Not Satisfiable"), (417, bytes "Expectation Failed"),
    (421, bytes "Misdirected Request"), (422, bytes "Unprocessable Entity"),
    (423, bytes "Locked"), (424, bytes "Failed Dependency"), (426, bytes "Upgrade Required"),
    (428, bytes "Precondition Required"), (429, bytes "Too Many Requests"),
    (431, bytes "Request Header Fields Too Large"),
    (451, bytes "Unavailable For Legal Reasons"), (500, bytes "Internal Server Error"),
    (501, bytes "Not Implemented"), (502, bytes "Bad Gateway"),
    (503, bytes "Service Unavailable"), (504, bytes "Gateway Timeout"),
    (505, bytes "HTTP Version Not Supported"), (506, bytes "Variant Also Negotiates"),
    (507, bytes "Insufficient Storage"), (508, bytes "Loop Detected"),
    (510, bytes "Not Extended"), (511, bytes "Network Authentication Required")]

def httpStatusToString (s : Int32) : Bytes :=
  ((httpStatusMap.find? fun e => e.1 = s).map Prod.snd).getD (bytes "<unknown>")

/-! ### Headers -/

/-- A `std::map` under `CaseInsensitiveLess`. -/
abbrev HeaderMap := RankedMap caseRank Bytes

/-- `getAs<uint64_t>` of a header: the default when it is missing or does not convert. -/
def HeaderMap.getAs (m : HeaderMap) (key : Bytes) (defValue : ℕ) : ℕ :=
  match m.find key with
  | none => defValue
  | some e => (lexicalCast e.2).getD defValue

def crlf : Bytes := [13, 10]

/-- One printed header line. -/
def headerLine (name value : Bytes) : Bytes := name ++ bytes ": " ++ value ++ crlf

/-- The headers as `dump` prints them; without websocket the connection header is skipped. -/
def dumpHeaders (websocket : Bool) (m : HeaderMap) : Bytes :=
  m.entries.flatMap fun e =>
    if !websocket && strcasecmpEq e.1 (bytes "connection") then [] else headerLine e.1 e.2

/-- The value of the connection header. -/
def connectionValue (close : Bool) : Bytes := if close then bytes "close" else bytes "keep-alive"

/-- The connection header, printed by `dump` itself. -/
def dumpConnection (websocket close : Bool) : Bytes :=
  if websocket then [] else headerLine (bytes "connection") (connectionValue close)

/-! ### Requests -/

structure HttpRequest where
  method : HttpMethod := .get
  version : UInt8 := 0x11
  close : Bool := true
  websocket : Bool := false
  path : Bytes := bytes "/"
  query : Bytes := []
  fragment : Bytes := []
  body : Bytes := []
  headers : HeaderMap := .empty
  deriving DecidableEq

namespace HttpRequest

def setMethod (r : HttpRequest) (v : HttpMethod) : HttpRequest := { r with method := v }
def setVersion (r : HttpRequest) (v : UInt8) : HttpRequest := { r with version := v }
def setPath (r : HttpRequest) (v : Bytes) : HttpRequest := { r with path := v }
def setQuery (r : HttpRequest) (v : Bytes) : HttpRequest := { r with query := v }
def setFragment (r : HttpRequest) (v : Bytes) : HttpRequest := { r with fragment := v }
def setBody (r : HttpRequest) (v : Bytes) : HttpRequest := { r with body := v }
def setHeader (r : HttpRequest) (key val : Bytes) : HttpRequest :=
  { r with headers := r.headers.insert key val }

/-- `HttpRequest::dump`, and so `toString`. -/
def dump (r : HttpRequest) : Bytes :=
  httpMethodToString r.method ++ bytes " " ++ r.path
    ++ (if r.query.isEmpty then [] else bytes "?") ++ r.query
    ++ (if r.fragment.isEmpty then [] else bytes "#") ++ r.fragment
    ++ bytes " HTTP/" ++ decimal (r.version >>> 4).toNat ++ bytes "."
    ++ decimal (r.version &&& 0x0F).toNat ++ crlf
    ++ dumpConnection r.websocket r.close
    ++ dumpHeaders r.websocket r.headers
    ++ if r.body.isEmpty then crlf
      else headerLine (bytes "connect-length") (decimal r.body.length) ++ crlf ++ r.body

end HttpRequest

/-! ### Responses -/

structure HttpResponce where
  status : Int32 := 200
  version : UInt8 := 0x11
  close : Bool := true
  websocket : Bool := false
  body : Bytes := []
  reason : Bytes := []
  headers : HeaderMap := .empty
  cookies : List Bytes := []
  deriving DecidableEq

namespace HttpResponce

def setStatus (r : HttpResponce) (v : Int32) : HttpResponce := { r with status := v }
def setVersion (r : HttpResponce) (v : UInt8) : HttpResponce := { r with version := v }
def setReason (r : HttpResponce) (v : Bytes) : HttpResponce := { r with reason := v }
def setHeader (r : HttpResponce) (key val : Bytes) : HttpResponce :=
  { r with headers := r.headers.insert key val }

/-- `HttpResponce::dump`, and so `toString`. -/
def dump (r : HttpResponce) : Bytes :=
  bytes "HTTP/" ++ decimal (r.version >>> 4).toNat ++ bytes "."
    ++ decimal (r.version &&& 0x0F).toNat ++ bytes " " ++ decimal r.status.toUInt32.toNat
    ++ bytes " " ++ (if r.reason.isEmpty then httpStatusToString r.status else r.reason) ++ crlf
    ++ dumpHeaders r.websocket r.headers
    ++ r.cookies.flatMap (fun c => headerLine (bytes "Set-Cookie") c)
    ++ dumpConnection r.websocket r.close
    ++ if r.body.isEmpty then crlf
      else headerLine (bytes "content-length") (decimal r.body.length) ++ crlf ++ r.body

end HttpResponce

/-! ### Printed headers -/

theorem dumpHeaders_eq {m : HeaderMap}
    (h : ∀ e ∈ m.entries, caseRank e.1 ≠ caseRank (bytes "connection")) :
    dumpHeaders false m = m.entries.flatMap fun e => headerLine e.1 e.2 := by
  unfold dumpHeaders
  refine List.flatMap_congr fun e he => ?_
  have hne : strcasecmpEq e.1 (bytes "connection") = false := decide_eq_false (h e he)
  simp [hne]

/-! ### Method names -/

/-- No name of the method table is a proper prefix of another one, and none holds a NUL. -/
theorem httpMethodMap_prefix_free :
    ∀ e ∈ httpMethodMap, ∀ e' ∈ httpMethodMap, e.2 <+: e'.2 → e = e' := by
  decide

theorem httpMethodMap_ne_zero : ∀ e ∈ httpMethodMap, ∀ b ∈ e.2, b ≠ 0 := by
  decide

theorem httpMethodMap_valid : ∀ e ∈ httpMethodMap, e.1 ≠ .invalidMethod := by
  decide

/-- Each method has one name. -/
theorem httpMethodMap_unique : ∀ e ∈ httpMethodMap, ∀ e' ∈ httpMethodMap, e.1 = e'.1 → e = e' := by
  decide

/-- A search in the method table by a test that at most one name passes. -/
theorem lookup_eq_iff {p : Bytes → Bool} {m : HttpMethod} (hm : m ≠ .invalidMethod)
    (hp : ∀ e ∈ httpMethodMap, ∀ e' ∈ httpMethodMap, p e.2 = true → p e'.2 = true → e = e') :
    ((httpMethodMap.find? fun e => p e.2).map Prod.fst).getD .invalidMethod = m ↔
      ∃ e ∈ httpMethodMap, e.1 = m ∧ p e.2 = true := by
  constructor
  · intro h
    cases hfind : httpMethodMap.find? fun e => p e.2 with
    | none =>
      rw [hfind] at h
      exact absurd h.symm hm
    | some e =>
      rw [hfind] at h
      exact ⟨e, List.mem_of_find?_eq_some hfind, h, by simpa using List.find?_some hfind⟩
  · rintro ⟨e, he, rfl, hpe⟩
    cases hfind : httpMethodMap.find? fun e => p e.2 with
    | none => exact absurd hpe (List.find?_eq_none.mp hfind e he)
    | some e' =>
      have hpe' : p e'.2 = true := by simpa using List.find?_some hfind
      rw [hp e' (List.mem_of_find?_eq_some hfind) e he hpe' hpe]
      rfl

/-- `charsToHttpMethod` finds the method whose name the bytes start with. -/
theorem charsToHttpMethod_eq_iff {s : Bytes} {m : HttpMethod} (hm : m ≠ .invalidMethod) :
    charsToHttpMethod s = m ↔ ∃ e ∈ httpMethodMap, e.1 = m ∧ e.2 <+: s := by
  have hmatch : ∀ e ∈ httpMethodMap, strncmpEq e.2 s e.2.length = true ↔ e.2 <+: s :=
    fun e he => strncmpEq_length_iff (httpMethodMap_ne_zero e he)
  rw [charsToHttpMethod, lookup_eq_iff (p := fun t => strncmpEq t s t.length) hm]
  · exact exists_congr fun e => and_congr_right fun he => and_congr_right' (hmatch e he)
  · intro e he e' he' h h'
    -- two names that `s` starts with are comparable, so they are the same
    rcases List.prefix_or_prefix_of_prefix ((hmatch e he).mp h) ((hmatch e' he').mp h') with h | h
    · exact httpMethodMap_prefix_free e he e' he' h
    · exact (httpMethodMap_prefix_free e' he' e he h).symm

/-- `stringToHttpMethod` finds the method of that name. -/
theorem stringToHttpMethod_eq_iff {s : Bytes} {m : HttpMethod} (hs : ∀ b ∈ s, b ≠ 0)
    (hm : m ≠ .invalidMethod) :
    stringToHttpMethod s = m ↔ ∃ e ∈ httpMethodMap, e.1 = m ∧ e.2 = s := by
  have hmatch : ∀ e ∈ httpMethodMap, strcmpEq e.2 s = true ↔ e.2 = s :=
    fun e he => strcmpEq_iff (httpMethodMap_ne_zero e he) hs
  rw [stringToHttpMethod, lookup_eq_iff (p := fun t => strcmpEq t s) hm]
  · exact exists_congr fun e => and_congr_right fun he => and_congr_right' (hmatch e he)
  · intro e he e' he' h h'
    have heq : e.2 = e'.2 := ((hmatch e he).mp h).trans ((hmatch e' he').mp h').symm
    exact httpMethodMap_prefix_free e he e' he' (heq ▸ List.prefix_refl _)

/-! ### Names in front of a blank -/

theorem blank_mem_iff : ∀ e ∈ httpMethodMap, 32 ∈ e.2 ↔ e = (.msearch, bytes "M - SEARCH") := by
  decide

/-- The name with blanks, cut at the first of them. -/
theorem search_split : bytes "M - SEARCH" = bytes "M" ++ 32 :: bytes "- SEARCH" := by
  decide

theorem takeWhile_blank {tok x : Bytes} (htok : 32 ∉ tok) :
    (tok ++ 32 :: x).takeWhile (· != 32) = tok := by
  rw [List.takeWhile_append_of_pos, List.takeWhile_cons_of_neg (by decide), List.append_nil]
  rintro b hb
  rw [bne_iff_ne]
  rintro rfl
  exact htok hb

/-- A list without blanks that is a prefix of `tok` and a blank is a prefix of `tok`. -/
theorem prefix_of_blank {name tok x : Bytes} (hname : 32 ∉ name) (h : name <+: tok ++ 32 :: x) :
    name <+: tok := by
  rcases List.prefix_or_prefix_of_prefix h (List.prefix_append tok (32 :: x)) with h' | ⟨t, rfl⟩
  · exact h'
  · have ht : t <+: 32 :: x := (List.prefix_append_right_inj tok).mp h
    cases t with
    | nil => rw [List.append_nil]
    | cons b t =>
      have hb : b = 32 := (List.cons_prefix_cons.mp ht).1
      exact absurd (List.mem_append_right tok (hb ▸ List.mem_cons_self)) hname

/-- A list with a blank that is a prefix of `tok` and a blank agrees with it up to the blank. -/
theorem of_prefix_blank {name front more tok x : Bytes} (hsplit : name = front ++ 32 :: more)
    (hfront : 32 ∉ front) (htok : 32 ∉ tok) (h : name <+: tok ++ 32 :: x) :
    tok = front ∧ more <+: x := by
  obtain ⟨y, hy⟩ := h
  rw [hsplit, List.append_assoc, List.cons_append] at hy
  have heq : front = tok := by
    rw [← takeWhile_blank (x := more ++ y) hfront, hy, takeWhile_blank htok]
  rw [heq] at hy
  exact ⟨heq.symm, y, List.tail_eq_of_cons_eq (List.append_cancel_left hy)⟩

end Muhui.Http
