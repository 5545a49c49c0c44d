/-
  `HttpServer::handleClient` (`http_server.cc`): a connection, its requests and its responses.

  A servlet may use the request, the response and the session as it likes.  The parser never
  touches the close flag of a request, with which every request begins, since `HttpRequest::init`,
  which would read the connection header, is not called.  So the loop is left behind the first
  response, for a server with keep-alive too (`handleClient_once`).

  `exchange` follows one request through the server: from the text that a client prints to the
  response that its parser reads.
-/
import Muhui.Http.Stream
import Muhui.Http.RequestRoundTrip
import Muhui.Http.ResponceRoundTrip
import Muhui.Servlet.Dispatch
import Muhui.Streams.FixSize

namespace Muhui.Http

open Scanner
open Muhui.Servlet (ServletDispatch)

/-! ### The session -/

section Session

variable {τ : Type}

/-- `SocketStream::write`; a socket that is not connected takes nothing. -/
def socketSink (sink : Stream.Sink τ) : Stream.Sink (Bool × τ) where
  next data x := if x.1 then ((sink.next data x.2).1, true, (sink.next data x.2).2) else (-1, x)
  le data x := by
    split_ifs
    · exact sink.le data x.2
    · show (-1 : ℤ) ≤ data.length
      omega
  int data x := by
    split_ifs
    · exact sink.int data x.2
    · show (-2 ^ 31 : ℤ) ≤ -1
      omega

/-- An `HttpSession`: what is still to be read, and what has been written; the stream that is
written to is whether the socket is connected, and the peer. -/
structure HttpSession (τ : Type) where
  socket : Socket
  writing : Stream.Writing (Bool × τ)

namespace HttpSession

/-- The session of a new connection. -/
def new (socket : Socket) (peer : τ) : HttpSession τ :=
  { socket := socket, writing := .start (true, peer) }

def isConnected (s : HttpSession τ) : Bool := s.writing.stream.1

/-- `SocketStream::close` -/
def close (s : HttpSession τ) : HttpSession τ :=
  { s with writing := { s.writing with stream := (false, s.writing.stream.2) } }

/-- `HttpSession::recvRequest`. Where it returns no request it has closed the session; reading from
a socket that is not connected fails. -/
def recvRequest (T : RequestTable) (buffSize : ℕ) (mem : Uninit) (s : HttpSession τ) :
    Outcome × HttpSession τ :=
  if s.isConnected then
    let (o, socket) := Http.recvRequest T buffSize mem s.socket
    (o, if o = .closed then close { s with socket } else { s with socket })
  else (.closed, s.close)

/-- `HttpSession::sendResponse` -/
def sendResponse (sink : Stream.Sink τ) (s : HttpSession τ) (rsp : HttpResponce) :
    Option (ℤ × HttpSession τ) :=
  (Stream.writeFixSize (socketSink sink) rsp.dump rsp.dump.length s.writing).map fun r =>
    (r.1, { s with writing := r.2 })

end HttpSession

end Session

/-! ### The server -/

/-- What a call of `Servlet::handle` leaves behind. -/
structure Handled (τ : Type) where
  result : Int32
  request : HttpRequest
  response : HttpResponce
  session : HttpSession τ

/-- `Servlet::handle`; an exception is `none`. -/
abbrev Handle (τ : Type) := HttpRequest → HttpResponce → HttpSession τ → Option (Handled τ)

def HttpResponce.setBody (r : HttpResponce) (v : Bytes) : HttpResponce := { r with body := v }

section Servlets

variable {τ : Type}

/-- `NotFountServlet::handle`, of the servlet with that name. -/
def notFountServlet (name : Bytes) : Handle τ := fun request response session =>
  let m_content := bytes "<html><head><title>404 Not Found" ++
    bytes "</title></head><body><center><h1>404 Not Found</h1></center>" ++
    bytes "<hr><center>" ++ name ++ bytes "</center></body></html>"
  some
    { result := 0
      request := request
      response :=
        (((response.setStatus 404).setHeader (bytes "Server") (bytes "muhui/1.0.0")).setHeader
          (bytes "Content-Type") (bytes "text/html")).setBody m_content
      session := session }

/-- `ServletDispatch::handle` -/
def dispatchHandle (fnmatch : Bytes → Bytes → Bool) (dispatch : ServletDispatch (Handle τ)) :
    Handle τ := fun request response session =>
  dispatch.getMatchedServlet fnmatch request.path request response session

end Servlets

/-- An `HttpServer`, without the part of the `TcpServer`. -/
structure HttpServer (τ : Type) where
  m_name : Bytes
  m_isKeepalive : Bool
  m_dispatch : ServletDispatch (Handle τ)

/-- How `handleClient` ends: it returns, throws, waits for ever in `recvRequest`, or has not ended
after so many rounds. -/
inductive Exit
  | returned | threw | spins | running
  deriving DecidableEq

/-- The end of `handleClient`, the session, and the responses that were handed to `sendResponse`. -/
structure Conversation (τ : Type) where
  exit : Exit
  session : HttpSession τ
  responses : List HttpResponce

namespace HttpServer

variable {τ : Type}

/-- The constructor. -/
def new (isKeepalive : Bool) : HttpServer τ :=
  { m_name := bytes "muhui/1.0.0"
    m_isKeepalive := isKeepalive
    m_dispatch := .init (notFountServlet (bytes "muhui/1.0.0")) }

/-- The response that a servlet is given. -/
def response (server : HttpServer τ) (req : HttpRequest) : HttpResponce :=
  HttpResponce.setHeader { version := req.version, close := req.close || !server.m_isKeepalive }
    (bytes "Server") server.m_name

variable (T : RequestTable) (buffSize : ℕ) (fnmatch : Bytes → Bytes → Bool) (sink : Stream.Sink τ)

/-- What the loop does behind a servlet: its end, or the session and the responses with which it
goes on. -/
def respond (server : HttpServer τ) (sent : List HttpResponce) (h : Handled τ) :
    Except (Conversation τ) (HttpSession τ × List HttpResponce) :=
  (h.session.sendResponse sink h.response).elim
    (.error { exit := .threw, session := h.session, responses := sent }) fun r =>
      -- a servlet may have changed the request
      if !server.m_isKeepalive || h.request.close then
        .error { exit := .returned, session := r.2.close, responses := sent ++ [h.response] }
      else .ok (r.2, sent ++ [h.response])

/-- One round of the loop of `handleClient`, behind the responses that have been sent. -/
def handleRound (server : HttpServer τ) (mem : Uninit) (s : HttpSession τ)
    (sent : List HttpResponce) : Except (Conversation τ) (HttpSession τ × List HttpResponce) :=
  match s.recvRequest T buffSize mem with
  | (.closed, s) => .error { exit := .returned, session := s.close, responses := sent }
  | (.threw, s) => .error { exit := .threw, session := s, responses := sent }
  | (.spins, s) => .error { exit := .spins, session := s, responses := sent }
  | (.request req, s) =>
    (dispatchHandle fnmatch server.m_dispatch req (server.response req) s).elim
      (.error { exit := .threw, session := s, responses := sent }) (server.respond sink sent)

/-- The loop, for up to so many rounds; `mem` is what each call of `recvRequest` finds in
uninitialised memory. -/
def handleLoop (server : HttpServer τ) :
    ℕ → (ℕ → Uninit) → HttpSession τ → List HttpResponce → Conversation τ
  | 0, _, s, sent => { exit := .running, session := s, responses := sent }
  | n + 1, mem, s, sent =>
    match server.handleRound T buffSize fnmatch sink (mem 0) s sent with
    | .error c => c
    | .ok (s, sent) => server.handleLoop n (fun i => mem (i + 1)) s sent

/-- `HttpServer::handleClient` -/
def handleClient (server : HttpServer τ) (rounds : ℕ) (mem : ℕ → Uninit) (s : HttpSession τ) :
    Conversation τ :=
  server.handleLoop T buffSize fnmatch sink rounds mem s []

end HttpServer

/-! ### The close flag -/

section Close

variable {T : RequestTable} {buffSize : ℕ}

/-- No callback sets the close flag. -/
theorem close_of_act {buffer : Bytes} {p : ℕ} {a : RequestAction} {s s' : RequestData}
    (h : a.act buffer p s = some s') : s'.message.close = s.message.close := by
  cases a <;> simp only [RequestAction.act, Option.some.injEq] at h
  case writeValue =>
    simp only [onRequestHttpField, onHttpField] at h
    split_ifs at h
    · rw [Option.some.inj h]
    · obtain ⟨f, -, h⟩ := Option.bind_eq_some_iff.mp h
      obtain ⟨v, -, rfl⟩ := Option.map_eq_some_iff.mp h
      rfl
  case requestMethod =>
    simp only [onRequestMethod] at h
    split_ifs at h <;> rw [← h]
    rfl
  case httpVersion =>
    unfold onRequestVersion at h
    split_ifs at h <;> rw [← h] <;> rfl
  case fragment | queryString | requestPath =>
    obtain ⟨v, -, rfl⟩ := Option.map_eq_some_iff.mp h
    rfl
  all_goals rw [← h]

/-- What every call of `execute` keeps, the header loop keeps. -/
theorem recvHeader_invariant {P : HttpRequestParser T → Prop}
    (hP : ∀ parser parser' data data' length n,
      parser.execute data length = some (n, parser', data') → P parser → P parser')
    {reads : ℕ} {parser parser' : HttpRequestParser T} {data data' : Bytes}
    {offset offset' : ℕ} {s s' : Socket}
    (h : recvHeader T buffSize reads parser data offset s = (.ok (parser', data', offset'), s'))
    (hparser : P parser) : P parser' :=
  recvHeader_rule (P := fun parser _ _ => P parser)
    (fun _ _ _ _ _ _ _ hkept hexec => hP _ _ _ _ _ _ hexec hkept) h hparser

/-- What no callback changes of a message, the header loop does not change. -/
theorem recvHeader_keeps {P : HttpRequest → Prop}
    (hP : ∀ buffer p (a : RequestAction) s s', a.act buffer p s = some s' → P s.message →
      P s'.message) {reads : ℕ} {parser parser' : HttpRequestParser T} {data data' : Bytes}
    {offset offset' : ℕ} {s s' : Socket}
    (h : recvHeader T buffSize reads parser data offset s = (.ok (parser', data', offset'), s'))
    (hparser : P parser.data.message) : P parser'.data.message := by
  refine recvHeader_invariant (P := fun parser => P parser.data.message) ?_ h hparser
  intro parser parser' data data' length n hexec hparser
  -- one call of `execute` scans at most once
  rcases HttpRequestParser.httpParserExecute_cases (HttpRequestParser.of_execute hexec).1 with
    ⟨-, -, rfl⟩ | ⟨-, -, hscan⟩
  · exact hparser
  · exact scan_induction (P := fun s => P s.message) (fun p a s s' => hP _ p a s s') hscan hparser

/-- The request that is returned is the one of the parser, with a body. -/
theorem request_of_recvBody {parser : HttpRequestParser T} {data : Bytes} {offset : ℕ}
    {s s' : Socket} {r : HttpRequest} (h : recvBody T parser data offset s = (.request r, s')) :
    ∃ body, r = parser.data.message.setBody body := by
  unfold recvBody at h
  simp only at h
  split at h
  · split at h
    · split at h
      · cases h
      · exact ⟨_, (Outcome.request.inj (congrArg Prod.fst h)).symm⟩
    · exact ⟨_, (Outcome.request.inj (congrArg Prod.fst h)).symm⟩
  · exact ⟨parser.data.message.body, (Outcome.request.inj (congrArg Prod.fst h)).symm⟩

/-- The header loop fails without a request. -/
theorem recvHeader_error {reads : ℕ} {parser : HttpRequestParser T} {data : Bytes} {offset : ℕ}
    {s s' : Socket} {o : Outcome}
    (h : recvHeader T buffSize reads parser data offset s = (.error o, s')) (r : HttpRequest) :
    o ≠ .request r := by
  induction reads generalizing parser data offset s with
  | zero =>
    rw [recvHeader] at h
    cases h
    intro heq
    cases heq
  | succ reads ih =>
    rw [recvHeader] at h
    rcases hread : read (buffSize - offset) s with ⟨_ | c, t⟩
    · rw [hread] at h
      cases h
      intro heq
      cases heq
    rw [hread] at h
    simp only at h
    cases hexec : parser.execute (data.take offset ++ c ++ data.drop (offset + c.length))
        (offset + c.length) with
    | none =>
      rw [hexec] at h
      cases h
      intro heq
      cases heq
    | some p =>
      rw [hexec] at h
      simp only at h
      split_ifs at h
      · cases h
        intro heq
        cases heq
      · cases h
        intro heq
        cases heq
      · cases h
      · exact ih h

/-- A request that `recvRequest` returns is the one of the parser behind the header section, with a
body. -/
theorem request_of_recvRequest {mem : Uninit} {s s' : Socket} {r : HttpRequest}
    (h : recvRequest T buffSize mem s = (.request r, s')) :
    ∃ reads parser data offset t body,
      recvHeader T buffSize reads (.new T mem.queryStart) mem.heap 0 s =
        (.ok (parser, data, offset), t) ∧ r = parser.data.message.setBody body := by
  unfold recvRequest at h
  simp only at h
  split at h
  · next o t hheader => exact absurd (congrArg Prod.fst h) (recvHeader_error hheader r)
  · next parser data offset t hheader =>
    obtain ⟨body, rfl⟩ := request_of_recvBody h
    exact ⟨_, parser, data, offset, t, body, hheader, rfl⟩

/-- Whatever arrives, a request that `recvRequest` returns is one to close the connection after. -/
theorem close_of_recvRequest {mem : Uninit} {s s' : Socket} {r : HttpRequest}
    (h : recvRequest T buffSize mem s = (.request r, s')) : r.close = true := by
  obtain ⟨_, parser, _, _, _, body, hheader, rfl⟩ := request_of_recvRequest h
  exact recvHeader_keeps (P := fun m => m.close = true)
    (fun _ _ _ _ _ h hs => (close_of_act h).trans hs) hheader rfl

end Close

/-! ### One round -/

/-- Takes a byte in each call. -/
def drips : Stream.Sink Unit where
  next data _ := ((data.take 1).length, ())
  le data _ := by
    show ((data.take 1).length : ℤ) ≤ data.length
    rw [List.length_take]
    omega
  int data _ := by
    show (-2 ^ 31 : ℤ) ≤ ((data.take 1).length : ℤ)
    omega

namespace HttpServer

section Once

variable {τ : Type} {T : RequestTable} {buffSize : ℕ} {fnmatch : Bytes → Bytes → Bool}
  {sink : Stream.Sink τ} {server : HttpServer τ}

/-- No servlet that the server has for a path takes back that the connection is to be closed. -/
def KeepsClose (fnmatch : Bytes → Bytes → Bool) (server : HttpServer τ) : Prop :=
  ∀ request response session h, request.close = true →
    dispatchHandle fnmatch server.m_dispatch request response session = some h →
      h.request.close = true

/-- What a session returns is a request to close the connection after. -/
theorem close_of_session {mem : Uninit} {s s' : HttpSession τ} {r : HttpRequest}
    (h : s.recvRequest T buffSize mem = (.request r, s')) : r.close = true := by
  unfold HttpSession.recvRequest at h
  split_ifs at h
  · cases hrecv : Http.recvRequest T buffSize mem s.socket with
    | mk o socket =>
      rw [hrecv] at h
      obtain rfl : o = .request r := congrArg Prod.fst h
      exact close_of_recvRequest hrecv
  · cases h

/-- How the loop ends in its first round, when no servlet takes the close flag back. -/
structure Once (sent : List HttpResponce) (c : Conversation τ) : Prop where
  ended : c.exit ≠ .running
  responses : c.responses = sent ∨ ∃ rsp, c.responses = sent ++ [rsp]
  closed : c.exit = .returned → c.session.isConnected = false

theorem respond_once {h : Handled τ} (hreq : h.request.close = true) (sent : List HttpResponce) :
    ∃ c, server.respond sink sent h = .error c ∧ Once sent c := by
  unfold respond
  cases h.session.sendResponse sink h.response with
  | none =>
    rw [Option.elim_none]
    exact ⟨_, rfl, nofun, .inl rfl, nofun⟩
  | some r =>
    rw [Option.elim_some, hreq, Bool.or_true, if_pos rfl]
    exact ⟨_, rfl, nofun, .inr ⟨h.response, rfl⟩, fun _ => rfl⟩

theorem handleRound_once (hclose : KeepsClose fnmatch server) (mem : Uninit) (s : HttpSession τ)
    (sent : List HttpResponce) :
    ∃ c, server.handleRound T buffSize fnmatch sink mem s sent = .error c ∧ Once sent c := by
  unfold handleRound
  split
  · exact ⟨_, rfl, nofun, .inl rfl, fun _ => rfl⟩
  · exact ⟨_, rfl, nofun, .inl rfl, nofun⟩
  · exact ⟨_, rfl, nofun, .inl rfl, nofun⟩
  · next req s' hrecv =>
    cases hhandle : dispatchHandle fnmatch server.m_dispatch req (server.response req) s' with
    | none => exact ⟨_, rfl, nofun, .inl rfl, nofun⟩
    | some h =>
      -- the servlet has left the flag as it was
      rw [Option.elim_some]
      exact respond_once (hclose _ _ _ _ (close_of_session hrecv) hhandle) sent

/-- **One response for each connection.** Whatever arrives and however it is cut, with keep-alive
or without, the loop does not come to a second request: it ends in its first round, hands at most
one response to `sendResponse`, and has closed the connection where it returns. -/
theorem handleClient_once (hclose : KeepsClose fnmatch server) (n : ℕ) (mem : ℕ → Uninit)
    (s : HttpSession τ) :
    let c := server.handleClient T buffSize fnmatch sink (n + 1) mem s
    c = server.handleClient T buffSize fnmatch sink 1 mem s ∧ c.exit ≠ .running ∧
      c.responses.length ≤ 1 ∧ (c.exit = .returned → c.session.isConnected = false) := by
  obtain ⟨c, hround, hended, hresponses, hclosed⟩ :
      ∃ c, server.handleRound T buffSize fnmatch sink (mem 0) s [] = .error c ∧ Once [] c :=
    handleRound_once hclose (mem 0) s []
  have hloop (k : ℕ) : server.handleClient T buffSize fnmatch sink (k + 1) mem s = c := by
    rw [handleClient, handleLoop, hround]
  rw [hloop n, hloop 0]
  refine ⟨rfl, hended, ?_, hclosed⟩
  rcases hresponses with hnone | ⟨rsp, hone⟩
  · rw [hnone]
    exact Nat.zero_le 1
  · rw [hone]
    exact Nat.le_refl 1

end Once

/-- A server without routes leaves the close flag alone. -/
theorem keepsClose_new {τ : Type} (fnmatch : Bytes → Bytes → Bool) (isKeepalive : Bool) :
    KeepsClose fnmatch (HttpServer.new isKeepalive : HttpServer τ) := by
  intro request response session h hclose hhandle
  obtain rfl := Option.some.inj hhandle
  exact hclose

/-- A server with keep-alive, and a client that asks for it and sends two requests. -/
theorem handleClient_once_keepalive :
    let c := (HttpServer.new true : HttpServer Unit).handleClient requestFragmentTable 4096
      (fun _ _ => false) drips 3 (fun _ => ⟨List.replicate 4096 0, 0⟩)
      (.new [some (bytes "GET /a HTTP/1.1\r\nconnection: keep-alive\r\n\r\n"),
        some getMessage.header] ())
    c = (HttpServer.new true : HttpServer Unit).handleClient requestFragmentTable 4096
        (fun _ _ => false) drips 1 (fun _ => ⟨List.replicate 4096 0, 0⟩)
        (.new [some (bytes "GET /a HTTP/1.1\r\nconnection: keep-alive\r\n\r\n"),
          some getMessage.header] ()) ∧
      c.exit ≠ .running ∧ c.responses.length ≤ 1 ∧
        (c.exit = .returned → c.session.isConnected = false) :=
  handleClient_once (keepsClose_new _ true) 2 _ _

end HttpServer

/-! ### One request -/

/-- The response with the reason that `dump` prints. -/
def HttpResponce.spelled (r : HttpResponce) : HttpResponce :=
  { r with reason := if r.reason.isEmpty then httpStatusToString r.status else r.reason }

theorem httpStatusToString_ne (s : Int32) : (httpStatusToString s).isEmpty = false := by
  have htable : ∀ e ∈ httpStatusMap, e.2.isEmpty = false := by decide
  unfold httpStatusToString
  cases hfind : httpStatusMap.find? fun e => e.1 = s with
  | none => rfl
  | some e => exact htable e (List.mem_of_find?_eq_some hfind)

theorem dump_spelled (r : HttpResponce) : r.spelled.dump = r.dump := by
  have hreason : (if r.spelled.reason.isEmpty then httpStatusToString r.spelled.status
      else r.spelled.reason) = if r.reason.isEmpty then httpStatusToString r.status
        else r.reason := by
    unfold HttpResponce.spelled
    by_cases h : r.reason.isEmpty = true
    · simp only [h, if_true, httpStatusToString_ne, Bool.false_eq_true, if_false]
    · simp only [h, Bool.false_eq_true, if_false]
  unfold HttpResponce.dump
  rw [hreason]
  rfl

section Exchange

variable {τ : Type} {sink : Stream.Sink τ} {peer : τ}

/-- A peer that takes at least a byte of what it is offered. -/
def Takes (sink : Stream.Sink τ) : Prop := ∀ data x, data ≠ [] → 0 < (sink.next data x).1

/-- The whole response goes to the peer. -/
theorem sendResponse_eq (htakes : Takes sink) {rsp : HttpResponce}
    (hsize : rsp.dump.length < 2 ^ 31) {s : HttpSession τ} (hs : s.writing = .start (true, peer)) :
    ∃ t, s.sendResponse sink rsp = some ((rsp.dump.length : ℤ), t) ∧
      t.writing.accepted = rsp.dump := by
  have heager : (socketSink sink).Eager fun x => x.1 = true := by
    intro data x hx hdata
    show 0 < (if x.1 then ((sink.next data x.2).1, true, (sink.next data x.2).2)
      else (-1, x)).1 ∧ (if x.1 then ((sink.next data x.2).1, true, (sink.next data x.2).2)
      else (-1, x)).2.1 = true
    rw [if_pos hx]
    exact ⟨htakes data x.2 hdata, rfl⟩
  obtain ⟨w, hwrite, haccepted, -⟩ :=
    Stream.writeFixSize_eager heager hsize (x := (true, peer)) rfl
  refine ⟨{ s with writing := w }, ?_, haccepted⟩
  rw [HttpSession.sendResponse, hs, hwrite]
  rfl

/-- A printed request without a body is a message that stands for what the parser makes of it. -/
theorem request_dump {T : RequestTable} {rel : RequestPlace → T.State → Prop}
    (follows : Follows T requestFragment RequestAction.isFlag rel) {req : HttpRequest}
    (hreq : req.Printable) (hbody : req.body = []) (hsize : req.dump.length < 2 ^ 31) :
    Message.request T ⟨req.dump, []⟩ = some req.parsed := by
  have hdump : req.dump = req.headText ++ [10] ++ req.body :=
    HttpRequest.dump_eq hreq.websocket fun e he => (hreq.unframed e he).1
  have hlength : req.headText.length + 1 = req.dump.length := by
    rw [hdump, hbody, List.append_nil, List.length_append, List.length_singleton]
  obtain ⟨parser, hexec, herror, hfinished, hmessage⟩ := execute_dump follows hreq hsize 0 []
  have hheader : parseHeader T req.dump = some req.parsed := by
    rw [List.append_nil] at hexec
    rw [parseHeader, hexec]
    simp only
    rw [if_pos ⟨hlength, herror, hfinished⟩, hmessage]
  have hzero := getcontentLength_parsed hreq hmessage
  rw [HttpRequestParser.getcontentLength, hmessage] at hzero
  rw [Message.request, hheader, Option.bind_some, hzero]
  rfl

/-- Along a history that erases no foreign route the dispatcher finds what the table does. -/
theorem matched_calls {σ : Type} {fnmatch : Bytes → Bytes → Bool} {default : σ}
    {cs : List (Servlet.Call σ)}
    (hown : ∀ pre c, pre ++ [c] <+: cs →
      Servlet.OwnFirst ((ServletDispatch.init default).calls pre) c) (uri : Bytes) :
    ((ServletDispatch.init default).calls cs).getMatchedServlet fnmatch uri =
      (Servlet.Routes.init.calls cs).matched fnmatch default uri := by
  have hagrees : ∀ pre, pre <+: cs → Servlet.Agrees fnmatch default
      ((ServletDispatch.init default).calls pre) (Servlet.Routes.init.calls pre) := by
    intro pre
    induction pre using List.reverseRecOn with
    | nil => exact fun _ => Servlet.agrees_of_routes (fun _ => rfl) rfl rfl
    | append_singleton pre c ih =>
      intro hpre
      rw [ServletDispatch.calls_append, Servlet.Routes.calls_append]
      have hdefault : ((ServletDispatch.init default).calls pre).default = default :=
        Servlet.default_calls _ _
      exact ((ih ((List.prefix_append pre [c]).trans hpre)).call_iff hdefault c).mpr
        (hown pre c hpre)
  exact (hagrees cs List.prefix_rfl).matched uri

/-- What a session is handed a request and a servlet answers. -/
theorem handleRound_eq {T : RequestTable} {buffSize : ℕ} {fnmatch : Bytes → Bytes → Bool}
    {server : HttpServer τ} {mem : Uninit} {s s' t : HttpSession τ} {req : HttpRequest}
    {h : Handled τ} {k : ℤ} {sent : List HttpResponce}
    (hrecv : s.recvRequest T buffSize mem = (.request req, s'))
    (hhandle : dispatchHandle fnmatch server.m_dispatch req (server.response req) s' = some h)
    (hclose : h.request.close = true)
    (hsend : h.session.sendResponse sink h.response = some (k, t)) :
    server.handleRound T buffSize fnmatch sink mem s sent =
      .error { exit := .returned, session := t.close, responses := sent ++ [h.response] } := by
  rw [HttpServer.handleRound, hrecv]
  simp only
  rw [hhandle, Option.elim_some, HttpServer.respond, hsend, Option.elim_some, hclose, Bool.or_true,
    if_pos rfl]

/-- **One exchange.** A client prints a request without a body, which arrives in reads that split no
token.  The servlet that the routing table has for the path answers, without using the session
itself.  Then the peer is sent exactly the printed answer, the connection is closed, and the parser
of the client reads the answer from what it was sent, with the body behind what it consumes. -/
theorem exchange {T : RequestTable} {T' : ResponceTable} {buffSize : ℕ}
    {rel : RequestPlace → T.State → Prop} {rel' : ResponcePlace → T'.State → Prop}
    {fnmatch : Bytes → Bytes → Bool} {server : HttpServer τ} {default : Handle τ}
    {cs : List (Servlet.Call (Handle τ))} {req : HttpRequest} {rsp : HttpResponce}
    {socket socket' : Socket} (hT : Generated T)
    (follows : Follows T requestFragment RequestAction.isFlag rel)
    (follows' : Follows T' responceFragment ResponceAction.isFlag rel') (hbuff : buffSize < 2 ^ 31)
    (htakes : Takes sink) (hserver : server.m_dispatch = (ServletDispatch.init default).calls cs)
    (hown : ∀ pre c, pre ++ [c] <+: cs →
      Servlet.OwnFirst ((ServletDispatch.init default).calls pre) c)
    (hreq : req.Printable) (hbody : req.body = []) (hreqsize : req.dump.length < 2 ^ 31)
    (harrives : Arrives T buffSize T.start req.dump socket [] socket') (hsocket : Arrivals socket)
    (hservlet : ∀ session, ∃ result request,
      (Servlet.Routes.init.calls cs).matched fnmatch default req.path req.parsed
          (server.response req.parsed) session = some ⟨result, request, rsp, session⟩ ∧
        request.close = true)
    (hrsp : rsp.spelled.Printable) (hversion : rsp.version = 0x11)
    (hrspsize : rsp.dump.length < 2 ^ 31) (n : ℕ) (mem : ℕ → Uninit) (stale : Bytes) :
    let c := server.handleClient T buffSize fnmatch sink (n + 1) mem (.new socket peer)
    let sent := c.session.writing.accepted
    c.exit = .returned ∧ c.session.isConnected = false ∧ sent = rsp.dump ∧
      ∃ k parser data, (HttpResponceParser.new T').execute (sent ++ 0 :: stale) sent.length true =
          some (k, parser, data) ∧
        parser.hasError = false ∧ parser.isFinished = 1 ∧
        parser.data.message = rsp.spelled.parsed ∧ sent.drop k = rsp.body := by
  -- the request comes in
  have hwire : ∃ rest, content socket = Message.wire ⟨req.dump, []⟩ ++ rest := by
    refine ⟨content socket', ?_⟩
    rw [(harrives.content hsocket).1, Message.wire]
  have hrecv : (HttpSession.new socket peer).recvRequest T buffSize (mem 0) =
      (.request req.parsed, .new socket' peer) := by
    have hempty : ([] : Bytes).length < 2 ^ 31 := by decide
    have hrequest : Http.recvRequest T buffSize (mem 0) socket =
        (.request req.parsed, skip 0 socket') :=
      recvRequest_eq hT hbuff (m := ⟨req.dump, []⟩) (request_dump follows hreq hbody hreqsize)
        harrives (Nat.zero_le _) hempty hsocket hwire
    rw [skip_zero] at hrequest
    show (if true then _ else _) = _
    rw [if_pos rfl]
    dsimp only [HttpSession.new]
    rw [hrequest]
    have hne : Outcome.request req.parsed ≠ .closed := by
      intro heq
      cases heq
    exact congrArg (Prod.mk _) (if_neg hne)
  -- the servlet answers
  obtain ⟨result, request, hanswer, hclose⟩ := hservlet (.new socket' peer)
  have hhandle : dispatchHandle fnmatch server.m_dispatch req.parsed (server.response req.parsed)
      (.new socket' peer) = some ⟨result, request, rsp, .new socket' peer⟩ := by
    rw [dispatchHandle, hserver, matched_calls hown]
    exact hanswer
  -- and the answer goes out
  obtain ⟨t, hsend, haccepted⟩ :=
    sendResponse_eq htakes hrspsize (s := .new socket' peer) rfl
  have hclient : server.handleClient T buffSize fnmatch sink (n + 1) mem (.new socket peer) =
      { exit := .returned, session := t.close, responses := [rsp] } := by
    rw [HttpServer.handleClient, HttpServer.handleLoop,
      handleRound_eq hrecv hhandle hclose hsend, List.nil_append]
  have hsent : t.close.writing.accepted = rsp.dump := haccepted
  rw [hclient]
  dsimp only
  rw [hsent]
  refine ⟨rfl, rfl, rfl, ?_⟩
  have hsize : rsp.spelled.dump.length < 2 ^ 31 := by rwa [dump_spelled]
  obtain ⟨parser, data, hexec, herror, hfinished, hmessage⟩ :=
    execute_dump_eleven follows' hrsp hversion hsize stale
  have hlength : (rsp.spelled.versionText ++ rsp.spelled.tailText).length + 1 =
      (rsp.spelled.versionText ++ rsp.spelled.tailText ++ [10]).length := by
    simp only [List.length_append, List.length_singleton]
  rw [← dump_spelled]
  refine ⟨_, parser, data, hexec, herror, hfinished, hmessage, ?_⟩
  rw [HttpResponce.dump_eq hrsp, hlength, List.drop_left]
  rfl

end Exchange

end Muhui.Http
