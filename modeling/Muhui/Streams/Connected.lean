/-
  `Socket` and `SSLSocket` (`socket.cc`): the descriptor and the flag `m_isConnected`.

  The flag is set by `connect` and `init` behind a descriptor that is there, and cleared by `close`
  together with it.  The `Create` functions for UDP set it whatever `socket` returns, and that is
  the only way to a socket that is connected and not valid (`connected_valid_iff`).

  `Kernel` holds what the system calls return in one call of a member function, which makes each of
  them once at most.
-/
import Muhui.Transition.Run
import Mathlib.Data.Int.Notation
import Mathlib.Data.Nat.Notation

namespace Muhui.Sockets

/-- An `Address`; an `UnKnownAddress` has no name. -/
structure Address where
  family : ℤ
  name : Option (List UInt8)

/-- A `Socket`, or an `SSLSocket`. The addresses may be null; of `m_ssl` it is only said whether it
is null. -/
structure Socket where
  ssl : Bool
  m_ssl : Bool
  m_sock : ℤ
  m_family : ℤ
  m_type : ℤ
  m_protocol : ℤ
  m_isConnected : Bool
  m_localAddress : Option Address
  m_remoteAddress : Option Address

/-- What the system calls return, and those of the TLS library; a name is null where the call
fails. `context` says that the manager of the descriptors has the accepted one as an open socket. -/
structure Kernel where
  socket : ℤ
  bind : ℤ
  listen : ℤ
  accept : ℤ
  connect : ℤ
  connect_with_timeout : ℤ
  getsockname : Option Address
  getpeername : Option Address
  transfer : ℤ
  SSL_accept : ℤ
  SSL_connect : ℤ
  context : Bool

/-- `AF_INET`, `AF_INET6`, `AF_UNIX` -/
def IPv4 : ℤ := 2
def IPv6 : ℤ := 10
def UNIX : ℤ := 1

/-- `SOCK_STREAM`, `SOCK_DGRAM` -/
def TCP : ℤ := 1
def UDP : ℤ := 2

namespace Socket

/-! ### Member functions -/

/-- `Socket::Socket` -/
def new (ssl : Bool) (family type protocol : ℤ) : Socket :=
  { ssl := ssl
    m_ssl := false
    m_sock := -1
    m_family := family
    m_type := type
    m_protocol := protocol
    m_isConnected := false
    m_localAddress := none
    m_remoteAddress := none }

/-- `isConnected` -/
def isConnected (s : Socket) : Bool := s.m_isConnected

/-- `isValid` -/
def isValid (s : Socket) : Bool := s.m_sock ≠ -1

variable (k : Kernel)

/-- `newSock`; the options that `initSock` sets are not looked at again. -/
def newSock (s : Socket) : Socket := { s with m_sock := k.socket }

/-- How `bind` and `connect` begin: without a descriptor one is opened. -/
def opened (s : Socket) : Socket := if s.isValid then s else s.newSock k

/-- `getRemoteAddress` -/
def getRemoteAddress (s : Socket) : Address × Socket :=
  match s.m_remoteAddress with
  | some addr => (addr, s)
  | none =>
    match k.getpeername with
    | none => ({ family := s.m_family, name := none }, s)
    | some result => (result, { s with m_remoteAddress := some result })

/-- `getLocalAddress` -/
def getLocalAddress (s : Socket) : Address × Socket :=
  match s.m_localAddress with
  | some addr => (addr, s)
  | none =>
    match k.getsockname with
    | none => ({ family := s.m_family, name := none }, s)
    | some result => (result, { s with m_localAddress := some result })

/-- `init`, also of an `SSLSocket`. -/
def init (sock : ℤ) (s : Socket) : Bool × Socket :=
  if k.context then
    let s := { s with m_sock := sock, m_isConnected := true }
    let s := (getRemoteAddress k (getLocalAddress k s).2).2
    if s.ssl then (k.SSL_accept = 1, { s with m_ssl := true }) else (true, s)
  else (false, s)

/-- `accept`: the new socket, if there is one. -/
def accept (s : Socket) : Option Socket :=
  if k.accept = -1 then none
  else
    let (v, sock) := init k k.accept (new s.ssl s.m_family s.m_type s.m_protocol)
    if v then some sock else none

/-- `close` -/
def close (s : Socket) : Bool × Socket :=
  if !s.m_isConnected && s.m_sock = -1 then (true, s)
  else
    let s := { s with m_isConnected := false }
    (false, if s.m_sock ≠ -1 then { s with m_sock := -1 } else s)

/-- `bind` -/
def bind (addr : Address) (s : Socket) : Bool × Socket :=
  let s := s.opened k
  if !s.isValid then (false, s)
  else if addr.family ≠ s.m_family then (false, s)
  else if k.bind ≠ 0 then (false, s)
  else (true, (getLocalAddress k s).2)

/-- `Socket::connect` -/
def connectPlain (addr : Address) (timeout_ms : UInt64) (s : Socket) : Bool × Socket :=
  let s := { s with m_remoteAddress := some addr }
  let s := s.opened k
  if !s.isValid then (false, s)
  else if addr.family ≠ s.m_family then (false, s)
  else if (if timeout_ms = -1 then k.connect else k.connect_with_timeout) ≠ 0 then
    (false, (close s).2)
  else
    let s := { s with m_isConnected := true }
    (true, (getLocalAddress k (getRemoteAddress k s).2).2)

/-- `connect`, also of an `SSLSocket`. -/
def connect (addr : Address) (timeout_ms : UInt64) (s : Socket) : Bool × Socket :=
  let (v, s) := connectPlain k addr timeout_ms s
  if v && s.ssl then (k.SSL_connect = 1, { s with m_ssl := true }) else (v, s)

/-- `reconnect` -/
def reconnect (timeout_ms : UInt64) (s : Socket) : Bool × Socket :=
  match s.m_remoteAddress with
  | none => (false, s)
  | some addr => connect k addr timeout_ms { s with m_localAddress := none }

/-- `listen` -/
def listen (s : Socket) : Bool × Socket :=
  if !s.isValid then (false, s) else (k.listen = 0, s)

/-- `send`, `sendTo`, `recv` and `recvFrom`, with one buffer or several. -/
def transfer (s : Socket) : ℤ × Socket :=
  (if (if s.ssl then s.m_ssl else s.isConnected) then k.transfer else -1, s)

/-! ### Runs -/

/-- The functions that create a socket, and the `accept` of one that listens. -/
inductive Create
  | CreateTCP (ssl : Bool) (address : Address)
  | CreateUDP (address : Address)
  | CreateTCPSocket (ssl : Bool)
  | CreateUDPSocket
  | CreateTCPSocket6 (ssl : Bool)
  | CreateUDPSocket6
  | CreateUnixTCPSocket
  | CreateUnixUDPSocket
  | accept (listener : Socket)

/-- The end of the functions that create an UDP socket. -/
def createUdp (s : Socket) : Socket := { s.newSock k with m_isConnected := true }

def create : Create → Option Socket
  | .CreateTCP ssl address => some (new ssl address.family TCP 0)
  | .CreateUDP address => some (createUdp k (new false address.family UDP 0))
  | .CreateTCPSocket ssl => some (new ssl IPv4 TCP 0)
  | .CreateUDPSocket => some (createUdp k (new false IPv4 UDP 0))
  | .CreateTCPSocket6 ssl => some (new ssl IPv6 TCP 0)
  | .CreateUDPSocket6 => some (createUdp k (new false IPv6 UDP 0))
  | .CreateUnixTCPSocket => some (new false UNIX TCP 0)
  | .CreateUnixUDPSocket => some (new false UNIX UDP 0)
  | .accept listener => listener.accept k

/-- The creation calls `newSock`. -/
def Create.opens : Create → Bool
  | .CreateUDP _ | .CreateUDPSocket | .CreateUDPSocket6 => true
  | _ => false

/-- The calls on a socket. `accept` leaves the listening socket as it is. -/
inductive Call
  | bind (addr : Address)
  | connect (addr : Address) (timeout_ms : UInt64)
  | reconnect (timeout_ms : UInt64)
  | listen
  | accept
  | close
  | transfer
  | getLocalAddress
  | getRemoteAddress

/-- What a call leaves behind. -/
def step (s : Socket) : Call × Kernel → Socket
  | (.bind addr, k) => (bind k addr s).2
  | (.connect addr timeout_ms, k) => (connect k addr timeout_ms s).2
  | (.reconnect timeout_ms, k) => (reconnect k timeout_ms s).2
  | (.listen, k) => (listen k s).2
  | (.accept, _) => s
  | (.close, _) => (close s).2
  | (.transfer, k) => (transfer k s).2
  | (.getLocalAddress, k) => (getLocalAddress k s).2
  | (.getRemoteAddress, k) => (getRemoteAddress k s).2

def run (s : Socket) (cs : List (Call × Kernel)) : Socket := cs.foldl step s

/-- A connected socket is valid. -/
def Good (s : Socket) : Prop := s.isConnected = true → s.isValid = true

variable {k} {s : Socket}

/-! ### What the functions leave behind -/

/-- `Good` reads two fields. -/
theorem Good.congr {s' : Socket} (h : Good s) (hsock : s'.m_sock = s.m_sock)
    (hconnected : s'.m_isConnected = s.m_isConnected) : Good s' := by
  unfold Good isConnected isValid at h ⊢
  rw [hsock, hconnected]
  exact h

theorem good_of_isValid (h : s.isValid = true) : Good s := fun _ => h

theorem good_of_not_isConnected (h : s.isConnected = false) : Good s := fun hconnected => by
  cases h.symm.trans hconnected

theorem Good.getRemoteAddress (h : Good s) : Good (getRemoteAddress k s).2 := by
  unfold Socket.getRemoteAddress
  split
  · exact h
  · split
    · exact h
    · exact h.congr rfl rfl

theorem Good.getLocalAddress (h : Good s) : Good (getLocalAddress k s).2 := by
  unfold Socket.getLocalAddress
  split
  · exact h
  · split
    · exact h
    · exact h.congr rfl rfl

/-- After `close` the socket is neither connected nor valid, in whatever state it was. -/
theorem close_spec (s : Socket) :
    (close s).2.isConnected = false ∧ (close s).2.isValid = false := by
  unfold close isConnected isValid
  split_ifs with h
  · simp only [Bool.and_eq_true, Bool.not_eq_true', decide_eq_true_eq] at h
    exact ⟨h.1, decide_eq_false (not_not.mpr h.2)⟩
  · dsimp only
    split_ifs with hsock
    · exact ⟨rfl, rfl⟩
    · exact ⟨rfl, decide_eq_false hsock⟩

/-- A descriptor is opened where there is none, and there the socket is not connected. -/
theorem Good.opened (h : Good s) : Good (s.opened k) := by
  unfold Socket.opened
  split_ifs with hvalid
  · exact h
  · have hnot : s.isConnected = false :=
      Bool.eq_false_iff.mpr fun hconnected => hvalid (h hconnected)
    exact good_of_not_isConnected hnot

theorem Good.bind (h : Good s) (addr : Address) : Good (bind k addr s).2 := by
  unfold Socket.bind
  dsimp only
  split_ifs
  · exact h.opened
  · exact h.opened
  · exact h.opened
  · exact h.opened.getLocalAddress

theorem Good.connectPlain (h : Good s) (addr : Address) (timeout_ms : UInt64) :
    Good (connectPlain k addr timeout_ms s).2 := by
  have haddr : Good { s with m_remoteAddress := some addr } := h.congr rfl rfl
  unfold Socket.connectPlain
  dsimp only
  generalize hs : ({ s with m_remoteAddress := some addr } : Socket).opened k = s'
  have hgood : Good s' := hs ▸ haddr.opened
  -- the flag is set behind a descriptor
  have hconnected (hvalid : ¬ (!s'.isValid) = true) :
      Good (Socket.getLocalAddress k
        (Socket.getRemoteAddress k { s' with m_isConnected := true }).2).2 := by
    have hvalid' : s'.isValid = true := by simpa using hvalid
    have hset : Good { s' with m_isConnected := true } := good_of_isValid hvalid'
    exact hset.getRemoteAddress.getLocalAddress
  have hclosed : Good (close s').2 := good_of_not_isConnected (close_spec s').1
  split_ifs with hvalid
  · exact hgood
  · exact hgood
  · exact hclosed
  · exact hconnected hvalid
  · exact hclosed
  · exact hconnected hvalid

theorem Good.connect (h : Good s) (addr : Address) (timeout_ms : UInt64) :
    Good (connect k addr timeout_ms s).2 := by
  have hplain := @Good.connectPlain k s h addr timeout_ms
  unfold Socket.connect
  dsimp only
  split_ifs
  · exact hplain.congr rfl rfl
  · exact hplain

theorem Good.reconnect (h : Good s) (timeout_ms : UInt64) :
    Good (reconnect k timeout_ms s).2 := by
  unfold Socket.reconnect
  split
  · exact h
  · next addr _ =>
    have hreset : Good { s with m_localAddress := none } := h.congr rfl rfl
    exact hreset.connect addr timeout_ms

/-- **Step lemma.** Every call keeps a connected socket valid. -/
theorem Good.step (h : Good s) (c : Call × Kernel) : Good (s.step c) := by
  obtain ⟨c, k⟩ := c
  cases c with
  | bind addr => exact h.bind addr
  | connect addr timeout_ms => exact h.connect addr timeout_ms
  | reconnect timeout_ms => exact h.reconnect timeout_ms
  | listen =>
    show Good (listen k s).2
    unfold listen
    split_ifs <;> exact h
  | accept => exact h
  | close => exact good_of_not_isConnected (close_spec s).1
  | transfer => exact h
  | getLocalAddress => exact h.getLocalAddress
  | getRemoteAddress => exact h.getRemoteAddress

theorem Good.run (h : Good s) (cs : List (Call × Kernel)) : Good (s.run cs) := by
  induction cs generalizing s with
  | nil => exact h
  | cons c cs ih => exact ih (h.step c)

/-! ### Creation -/

theorem good_new (ssl : Bool) (family type protocol : ℤ) : Good (new ssl family type protocol) :=
  good_of_not_isConnected rfl

theorem good_init {sock : ℤ} (hsock : sock ≠ -1) (h : Good s) : Good (init k sock s).2 := by
  have hset : Good { s with m_sock := sock, m_isConnected := true } :=
    good_of_isValid (decide_eq_true hsock)
  have hnamed := (hset.getLocalAddress (k := k)).getRemoteAddress (k := k)
  unfold init
  dsimp only
  split_ifs
  · exact hnamed.congr rfl rfl
  · exact hnamed
  · exact h

/-- An accepted socket has the descriptor of `::accept`. -/
theorem good_of_accept {listener : Socket} (h : listener.accept k = some s) : Good s := by
  unfold accept at h
  split_ifs at h with haccept
  dsimp only at h
  split_ifs at h
  obtain rfl := Option.some.inj h
  exact good_init haccept (good_new _ _ _ _)

theorem good_createUdp_iff : Good (createUdp k s) ↔ k.socket ≠ -1 := by
  unfold Good
  rw [show (createUdp k s).isConnected = true from rfl]
  exact ⟨fun h => of_decide_eq_true (h rfl), fun h _ => decide_eq_true h⟩

/-- Among the functions that create a socket those that open one do not look at the result. -/
theorem good_create_iff {c : Create} (h : create k c = some s) :
    Good s ↔ ¬ (c.opens = true ∧ k.socket = -1) := by
  have hudp (s : Socket) : Good (createUdp k s) ↔ ¬ (true = true ∧ k.socket = -1) := by
    rw [good_createUdp_iff, eq_self, true_and]
  have hnew {s : Socket} (hs : Good s) : Good s ↔ ¬ (false = true ∧ k.socket = -1) :=
    iff_of_true hs fun h => Bool.false_ne_true h.1
  cases c with
  | accept listener => exact hnew (good_of_accept h)
  | CreateUDP address =>
    obtain rfl := Option.some.inj h
    exact hudp _
  | CreateUDPSocket =>
    obtain rfl := Option.some.inj h
    exact hudp _
  | CreateUDPSocket6 =>
    obtain rfl := Option.some.inj h
    exact hudp _
  | _ =>
    obtain rfl := Option.some.inj h
    exact hnew (good_new _ _ _ _)

/-- A socket is valid whenever it is connected, in every state of every run, exactly when it has not
been created for UDP with a `socket` that failed; and after `close` it is neither. -/
theorem connected_valid_iff {c : Create} (h : create k c = some s) (cs : List (Call × Kernel)) :
    ((∀ pre, pre <+: cs → (s.run pre).isConnected = true → (s.run pre).isValid = true) ∧
        ∀ pre k', pre ++ [(.close, k')] <+: cs →
          (s.run (pre ++ [(.close, k')])).isConnected = false ∧
            (s.run (pre ++ [(.close, k')])).isValid = false) ↔
      ¬ (c.opens = true ∧ k.socket = -1) := by
  rw [← good_create_iff h]
  constructor
  · rintro ⟨hgood, -⟩
    exact hgood [] List.nil_prefix
  · intro hgood
    refine ⟨fun pre _ => hgood.run pre, fun pre k' _ => ?_⟩
    have hclose : s.run (pre ++ [(.close, k')]) = (close (s.run pre)).2 := by
      unfold run
      rw [List.foldl_append]
      rfl
    rw [hclose]
    exact close_spec _

/-- A kernel in which all calls succeed but `socket`. -/
def exhausted : Kernel :=
  { socket := -1
    bind := 0
    listen := 0
    accept := 4
    connect := 0
    connect_with_timeout := 0
    getsockname := none
    getpeername := none
    transfer := 0
    SSL_accept := 1
    SSL_connect := 1
    context := true }

/-- `connected_valid_iff` for a TCP socket that is connected and closed. -/
theorem connected_valid_iff_tcp :
    let k := { exhausted with socket := 3 }
    let s := new false IPv4 TCP 0
    let cs : List (Call × Kernel) := [(.connect ⟨2, some [127, 0, 0, 1]⟩ 5, k), (.close, k)]
    ((∀ pre, pre <+: cs → (s.run pre).isConnected = true → (s.run pre).isValid = true) ∧
        ∀ pre k', pre ++ [(.close, k')] <+: cs →
          (s.run (pre ++ [(.close, k')])).isConnected = false ∧
            (s.run (pre ++ [(.close, k')])).isValid = false) ↔
      ¬ ((Create.CreateTCPSocket false).opens = true ∧ k.socket = -1) :=
  connected_valid_iff rfl _

/-- A UDP socket is connected when there are no descriptors left. -/
theorem not_valid_of_exhausted :
    ∃ s, create exhausted .CreateUDPSocket = some s ∧ s.isConnected = true ∧ s.isValid = false :=
  ⟨_, rfl, rfl, rfl⟩

end Socket

end Muhui.Sockets
