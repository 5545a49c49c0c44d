/-
  Several requests on one session.

  `recvRequest` hands the body what its last read brought beyond the header section and reads the
  rest of the body to the byte; whatever that read brought beyond the body stays in the buffer of
  the call and is gone with it.  `Meets` is the schedule under which that does not happen: every
  header section arrives as `Arrives` asks, and its last read does not reach beyond the body.  Then
  successive calls return the requests of the stream one by one (`serve_of_meets`).
-/
import Muhui.Http.Arrival
import Muhui.Http.RequestFragment

namespace Muhui.Http

open Scanner

variable {T : RequestTable} {buffSize : ℕ}

/-! ### Messages and schedules -/

/-- A request on the wire. -/
structure Message where
  header : Bytes
  body : Bytes

/-- The bytes of a message. -/
def Message.wire (m : Message) : Bytes := m.header ++ m.body

/-- The request that a well formed message stands for: its header section parses in one piece, and
the content length it announces is the length of the body. -/
def Message.request (T : RequestTable) (m : Message) : Option HttpRequest :=
  (parseHeader T m.header).bind fun r =>
    if r.headers.getAs (bytes "content-length") 0 = m.body.length then some (r.setBody m.body)
    else none

/-- The socket without its next `n` bytes. -/
def skip : ℕ → Socket → Socket
  | 0, s => s
  | _ + 1, [] => []
  | _ + 1, none :: s => none :: s
  | n + 1, some c :: s =>
    if c.length ≤ n + 1 then skip (n + 1 - c.length) s else some (c.drop (n + 1)) :: s

/-- The messages arrive in reads that split no token, and no read reaches from a header section
beyond its body. -/
inductive Meets (T : RequestTable) (buffSize : ℕ) : List Message → Socket → Prop
  | nil {s : Socket} : Meets T buffSize [] s
  | cons {m : Message} {ms : List Message} {surplus : Bytes} {s s' : Socket}
      (harrives : Arrives T buffSize T.start m.header s surplus s')
      (hsurplus : surplus.length ≤ m.body.length) (hbody : m.body.length < 2 ^ 31)
      (hrest : Meets T buffSize ms (skip (m.body.length - surplus.length) s')) :
      Meets T buffSize (m :: ms) s

@[simp] theorem skip_zero (s : Socket) : skip 0 s = s := by
  cases s <;> rfl

@[simp] theorem readFixSize_zero (reads : ℕ) (s : Socket) :
    readFixSize reads 0 s = (some [], s) := by
  cases reads <;> rfl

/-! ### The bytes of a socket -/

/-- All bytes that are still to be read. -/
def content (s : Socket) : Bytes := (s.map fun c => c.getD []).flatten

/-- Reads do not fail, and each brings something. -/
def Arrivals (s : Socket) : Prop := ∀ c ∈ s, ∃ b, c = some b ∧ b ≠ []

theorem content_cons (c : Bytes) (s : Socket) : content (some c :: s) = c ++ content s := rfl

theorem Arrivals.tail {c : Option Bytes} {s : Socket} (h : Arrivals (c :: s)) : Arrivals s :=
  fun d hd => h d (List.mem_cons_of_mem _ hd)

theorem Arrivals.head {c : Option Bytes} {s : Socket} (h : Arrivals (c :: s)) :
    ∃ b, c = some b ∧ b ≠ [] :=
  h c List.mem_cons_self

theorem Arrivals.cons {c : Bytes} {s : Socket} (h : Arrivals s) (hc : c ≠ []) :
    Arrivals (some c :: s) := by
  intro d hd
  rcases List.mem_cons.mp hd with rfl | hd
  · exact ⟨c, rfl, hc⟩
  · exact h d hd

theorem drop_ne_nil {c : Bytes} {n : ℕ} (h : ¬c.length ≤ n) : c.drop n ≠ [] := by
  intro h0
  rw [List.drop_eq_nil_iff] at h0
  exact h h0

theorem read_content {n : ℕ} {s s' : Socket} {c : Bytes} (hs : Arrivals s)
    (h : read n s = (some c, s')) : content s = c ++ content s' ∧ Arrivals s' := by
  match s with
  | [] =>
    simp only [read, Prod.mk.injEq, Option.some.injEq] at h
    obtain ⟨rfl, rfl⟩ := h
    exact ⟨rfl, hs⟩
  | none :: s =>
    obtain ⟨b, hb, -⟩ := hs.head
    cases hb
  | some d :: s =>
    rw [read] at h
    split_ifs at h with hd <;> simp only [Prod.mk.injEq, Option.some.injEq] at h <;>
      obtain ⟨rfl, rfl⟩ := h
    · exact ⟨rfl, hs.tail⟩
    · refine ⟨?_, hs.tail.cons (drop_ne_nil hd)⟩
      rw [content_cons, content_cons, ← List.append_assoc, List.take_append_drop]

theorem Arrives.content {q : T.State} {need surplus : Bytes} {s s' : Socket}
    (h : Arrives T buffSize q need s surplus s') (hs : Arrivals s) :
    content s = need ++ surplus ++ content s' ∧ Arrivals s' := by
  induction h with
  | last hread _ => exact read_content hs hread
  | more hread _ _ _ _ ih =>
    obtain ⟨hcontent, hs'⟩ := read_content hs hread
    obtain ⟨hcontent', hs''⟩ := ih hs'
    refine ⟨?_, hs''⟩
    rw [hcontent, hcontent']
    simp only [List.append_assoc]

theorem skip_content {n : ℕ} {s : Socket} (hs : Arrivals s) :
    content (skip n s) = (content s).drop n ∧ Arrivals (skip n s) := by
  induction s generalizing n with
  | nil =>
    cases n with
    | zero =>
      rw [skip_zero]
      exact ⟨rfl, hs⟩
    | succ n => exact ⟨List.drop_nil.symm, hs⟩
  | cons c s ih =>
    obtain ⟨b, rfl, -⟩ := hs.head
    cases n with
    | zero =>
      rw [skip_zero]
      exact ⟨rfl, hs⟩
    | succ n =>
      rw [skip, content_cons]
      split_ifs with hb
      · obtain ⟨hcontent, harrivals⟩ := ih (n := n + 1 - b.length) hs.tail
        refine ⟨?_, harrivals⟩
        rw [hcontent, List.drop_append, List.drop_eq_nil_of_le hb, List.nil_append]
      · refine ⟨?_, hs.tail.cons (drop_ne_nil hb)⟩
        rw [content_cons, List.drop_append_of_le_length (by omega)]

/-- `readFixSize` takes exactly the bytes it was asked for. -/
theorem readFixSize_eq {reads n : ℕ} {s : Socket} (hs : Arrivals s) (hn : n ≤ (content s).length)
    (hreads : n ≤ reads) : readFixSize reads n s = (some ((content s).take n), skip n s) := by
  induction reads generalizing n s with
  | zero =>
    obtain rfl : n = 0 := by omega
    rw [readFixSize_zero, skip_zero, List.take_zero]
  | succ reads ih =>
    cases n with
    | zero => rw [readFixSize_zero, skip_zero, List.take_zero]
    | succ n =>
      cases s with
      | nil => exact absurd hn (Nat.not_succ_le_zero n)
      | cons c s =>
        obtain ⟨b, rfl, hb⟩ := hs.head
        have hpos : 0 < b.length := List.length_pos_iff.mpr hb
        rw [content_cons, List.length_append] at hn
        rw [readFixSize, read, skip, content_cons]
        split_ifs with hle
        · simp only [if_neg hb]
          rw [ih hs.tail (by omega) (by omega), List.take_append, List.take_of_length_le hle]
          rfl
        · -- the read is cut at the number of bytes asked for
          have htake : b.take (n + 1) ≠ [] := by
            intro h0
            rw [List.take_eq_nil_iff] at h0
            rcases h0 with h0 | h0
            · exact Nat.succ_ne_zero n h0
            · exact hb h0
          have hlen : (b.take (n + 1)).length = n + 1 := by
            rw [List.length_take]
            omega
          simp only [if_neg htake, hlen, Nat.sub_self, readFixSize_zero]
          rw [List.take_append_of_le_length (by omega), Option.map_some, List.append_nil]

/-! ### One request -/

/-- The body is what the header loop left over and the bytes that follow. -/
theorem recvBody_eq {parser : HttpRequestParser T} {data surplus body : Bytes} {s : Socket}
    (hlength : parser.getcontentLength = body.length) (hbody : body.length < 2 ^ 31)
    (hnil : parser.data.message.body = []) (hdata : data.take surplus.length = surplus)
    (hsurplus : surplus.length ≤ body.length) (hs : Arrivals s)
    (hcontent : ∃ rest, surplus ++ content s = body ++ rest) :
    recvBody T parser data surplus.length s =
      (.request (parser.data.message.setBody body), skip (body.length - surplus.length) s) := by
  obtain ⟨rest, hrest⟩ := hcontent
  have hlen := congrArg List.length hrest
  rw [List.length_append, List.length_append] at hlen
  have htail : body = surplus ++ (content s).take (body.length - surplus.length) := by
    have := congrArg (List.take body.length) hrest
    rw [List.take_left, List.take_append, List.take_of_length_le hsurplus] at this
    exact this.symm
  have hsub : ((body.length : ℤ) - surplus.length).toNat = body.length - surplus.length := by omega
  unfold recvBody
  rw [hlength, toInt_of_lt hbody]
  simp only [hsub, hdata]
  by_cases h0 : body.length = 0
  · -- no body is announced, so nothing is copied
    have hbody0 : body = [] := List.length_eq_zero_iff.mp h0
    rw [if_neg (by omega), h0, Nat.zero_sub, skip_zero, hbody0]
    congr 2
    cases hr : parser.data.message
    rw [hr] at hnil
    simp only at hnil
    rw [hnil]
    rfl
  · rw [if_pos (by omega)]
    simp only [Nat.cast_le, hsurplus, if_true]
    by_cases hall : surplus.length = body.length
    · rw [if_neg (by omega), hall, Nat.sub_self, skip_zero]
      rw [hall, Nat.sub_self, List.take_zero, List.append_nil] at htail
      rw [← htail]
    · rw [if_pos (by omega), readFixSize_eq hs (by omega) le_rfl]
      simp only
      rw [← htail]

/-- A message that arrives without a split token, and without bytes beyond it in its last header
read, is returned, and the socket stands behind it. -/
theorem recvRequest_eq (hT : Generated T) (hsize : buffSize < 2 ^ 31) {m : Message}
    {r : HttpRequest} (hm : m.request T = some r) {mem : Uninit} {surplus : Bytes} {s s' : Socket}
    (harrives : Arrives T buffSize T.start m.header s surplus s')
    (hsurplus : surplus.length ≤ m.body.length) (hbody : m.body.length < 2 ^ 31) (hs : Arrivals s)
    (hcontent : ∃ rest, content s = m.wire ++ rest) :
    recvRequest T buffSize mem s = (.request r, skip (m.body.length - surplus.length) s') := by
  obtain ⟨r₀, hparse, hm⟩ := Option.bind_eq_some_iff.mp hm
  split_ifs at hm with hlength
  obtain rfl := Option.some.inj hm
  obtain ⟨hne, q, t, ⟨hscan, hq, hfinal, herror⟩, rfl⟩ := exists_parses hT hparse
  have hafter : T.after T.start m.header ≠ T.error := by
    have hscan' : scan T (RequestAction.act m.header) RequestAction.stops m.header 0 T.start
        (.init {} 0) = some (0 + m.header.length, q, t) := by
      rw [Nat.zero_add]
      exact hscan
    rw [← after_of_scan hscan']
    exact hq
  obtain ⟨parser, data, hrecv, hrequest, hdata⟩ := recvHeader_of_arrives hT hsize hq hfinal herror
    hafter harrives 0 (readsLeft s + 1) (.init {} 0) (.new T mem.queryStart) mem.heap hne rfl rfl
    rfl hT.start_not_final hscan rfl rfl (Nat.lt_succ_self _)
  obtain ⟨hwire, hs'⟩ := harrives.content hs
  obtain ⟨rest, hrest⟩ := hcontent
  have hbehind : surplus ++ content s' = m.body ++ rest := by
    rw [hwire, Message.wire, List.append_assoc, List.append_assoc] at hrest
    exact List.append_cancel_left hrest
  have hnil : parser.data.message.body = [] := by
    rw [hrequest]
    exact scan_induction (P := fun s => s.message.body = [])
      (fun _ _ _ _ h hs => (RequestAction.step h).key_eq.trans hs) hscan rfl
  have hlen : parser.getcontentLength = m.body.length := by
    rw [HttpRequestParser.getcontentLength, hrequest]
    exact hlength
  rw [recvRequest_eq_body hrecv, recvBody_eq hlen hbody hnil hdata hsurplus hs' ⟨rest, hbehind⟩,
    hrequest]

/-- At the end of the stream `recvRequest` does not return a request. -/
theorem recvRequest_nil (hT : Generated T) (mem : Uninit) (r : HttpRequest) :
    (recvRequest T buffSize mem []).1 ≠ .request r := by
  have hfin : (HttpRequestParser.new T mem.queryStart).hasError = false →
      (HttpRequestParser.new T mem.queryStart).isFinished = 0 := by
    intro h
    have halive : T.start ≠ T.error := (hasError_eq_false_iff.mp h).2
    simp [HttpRequestParser.isFinished, HttpRequestParser.new, halive, hT.start_not_final]
  simp only [recvRequest, recvHeader, read, HttpRequestParser.execute,
    HttpRequestParser.httpParserExecute, List.map_nil, List.sum_nil, List.length_nil, Nat.add_zero,
    if_true, Option.map_some, Nat.sub_self]
  by_cases herror : (HttpRequestParser.new T mem.queryStart).hasError = true
  · rw [if_pos herror]
    simp
  · have hspin : ¬(0 : ℤ) ≠ 0 := fun h => h rfl
    rw [if_neg herror, hfin (by simpa using herror), if_neg hspin]
    split_ifs <;> simp

theorem serve_nil (hT : Generated T) (n : ℕ) (mem : ℕ → Uninit) :
    serve T buffSize n mem [] = [] := by
  cases n with
  | zero => rfl
  | succ n =>
    have hnot : ∀ r, (recvRequest T buffSize (mem 0) []).1 ≠ .request r :=
      recvRequest_nil hT (mem 0)
    rw [serve]
    split
    · rename_i r s hr
      exact absurd (congrArg Prod.fst hr) (hnot r)
    · rfl

/-- Successive calls return the requests of the stream one by one, and no further one. -/
theorem serve_of_meets (hT : Generated T) (hsize : buffSize < 2 ^ 31) {ms : List Message}
    {rs : List HttpRequest} {s : Socket} (h : Meets T buffSize ms s)
    (hms : List.Forall₂ (fun m r => m.request T = some r) ms rs) (hs : Arrivals s)
    (hcontent : content s = (ms.map Message.wire).flatten) (n : ℕ) (mem : ℕ → Uninit) :
    serve T buffSize n mem s = rs.take n := by
  induction h generalizing rs n mem with
  | @nil s =>
    cases hms
    have hnil : s = [] := by
      cases s with
      | nil => rfl
      | cons c s =>
        obtain ⟨b, rfl, hb⟩ := hs.head
        exact absurd (List.append_eq_nil_iff.mp hcontent).1 hb
    rw [hnil, serve_nil hT, List.take_nil]
  | @cons m ms surplus s s' harrives hsurplus hbody hrest ih =>
    cases hms with
    | cons hm hms =>
    cases n with
    | zero => rfl
    | succ n =>
      rw [List.map_cons, List.flatten_cons] at hcontent
      obtain ⟨hwire, hs'⟩ := harrives.content hs
      obtain ⟨hskip, hs''⟩ := skip_content (n := m.body.length - surplus.length) hs'
      rw [serve, recvRequest_eq hT hsize hm harrives hsurplus hbody hs ⟨_, hcontent⟩]
      simp only
      have hbehind : content (skip (m.body.length - surplus.length) s') =
          (ms.map Message.wire).flatten := by
        rw [hwire, Message.wire, List.append_assoc, List.append_assoc] at hcontent
        have htail := congrArg (List.drop m.body.length) (List.append_cancel_left hcontent)
        rw [List.drop_left, List.drop_append, List.drop_eq_nil_of_le hsurplus] at htail
        rw [hskip]
        exact htail
      rw [ih hms hs'' hbehind n, List.take_succ_cons]

theorem arrivals_map {chunks : List Bytes} (h : ∀ c ∈ chunks, c ≠ []) :
    Arrivals (chunks.map some) := by
  intro c hc
  obtain ⟨b, hb, rfl⟩ := List.mem_map.mp hc
  exact ⟨b, rfl, h b hb⟩

theorem content_map (chunks : List Bytes) : content (chunks.map some) = chunks.flatten := by
  rw [content, List.map_map]
  congr 1
  exact List.map_id chunks

/-- For every stream of well formed requests and every schedule of reads that meets the condition,
the `k`-th call on the session returns the `k`-th request, and no call returns anything else. -/
theorem serve_chunks (hT : Generated T) (hsize : buffSize < 2 ^ 31) {ms : List Message}
    {rs : List HttpRequest} {chunks : List Bytes}
    (hms : List.Forall₂ (fun m r => m.request T = some r) ms rs) (hchunks : ∀ c ∈ chunks, c ≠ [])
    (hflatten : chunks.flatten = (ms.map Message.wire).flatten)
    (hmeets : Meets T buffSize ms (chunks.map some)) (n : ℕ) (mem : ℕ → Uninit) :
    serve T buffSize n mem (chunks.map some) = rs.take n :=
  serve_of_meets hT hsize hmeets hms (arrivals_map hchunks) ((content_map chunks).trans hflatten) n
    mem

/-- A request with a body of two bytes. -/
def postMessage : Message :=
  ⟨bytes "POST /p HTTP/1.1\r\ncontent-length: 2\r\n\r\n", bytes "ab"⟩

def postRequest : HttpRequest :=
  { method := .post
    path := bytes "/p"
    body := bytes "ab"
    headers := RankedMap.empty.insert (bytes "content-length") (bytes "2") }

/-- A request without a body. -/
def getMessage : Message := ⟨bytes "GET /a HTTP/1.1\r\n\r\n", []⟩

def getRequest : HttpRequest := { path := bytes "/a" }

/-- The header section comes with the first byte of the body, the next request on its own. -/
theorem serve_chunks_post :
    serve requestFragmentTable 4096 2 (fun _ => ⟨List.replicate 4096 0, 0⟩)
      ([postMessage.header ++ [97], [98], getMessage.header].map some) =
        [postRequest, getRequest] := by
  have harrives : Arrives requestFragmentTable 4096 requestFragmentTable.start postMessage.header
      ([postMessage.header ++ [97], [98], getMessage.header].map some) [97]
      ([[98], getMessage.header].map some) :=
    .last (by decide) (by decide)
  have harrives' : Arrives requestFragmentTable 4096 requestFragmentTable.start getMessage.header
      ([getMessage.header].map some) [] [] :=
    .last (by decide) (by decide)
  have hmeets : Meets requestFragmentTable 4096 [postMessage, getMessage]
      ([postMessage.header ++ [97], [98], getMessage.header].map some) :=
    .cons harrives (by decide) (by decide) (.cons harrives' (by decide) (by decide) .nil)
  exact serve_chunks generated_fragmentTable (by decide)
    (.cons (by decide) (.cons (by decide) .nil)) (by decide) (by decide) hmeets 2 _

/-- Two requests in one read: the second one is lost with the buffer of the first call. -/
theorem serve_one_read :
    postMessage.request requestFragmentTable = some postRequest ∧
      getMessage.request requestFragmentTable = some getRequest ∧
      serve requestFragmentTable 4096 2 (fun _ => ⟨List.replicate 4096 0, 0⟩)
        ([postMessage.wire ++ getMessage.wire].map some) ≠ [postRequest, getRequest] := by
  decide +kernel

end Muhui.Http
