/-
  `TcpServer` (`tcp_server.cc`): `bind`, `start`, `stop`, the loops of `startAccept` and the task
  that `stop` schedules.

  These tasks run side by side, with each other and with whoever calls the server, so a step is a
  call or one turn of a loop, and a run is any list of steps.  A listening socket goes when somebody
  closes it or nobody holds it any more, and the connections that wait on it go with it.

  `arrived` and `lost` are ghosts: the clients that have connected, and those of them that no
  `handleClient` will see.
-/
import Muhui.Transition.Run
import Mathlib.Data.List.Nodup

namespace Muhui

namespace TcpServer

/-- What `Socket::bind` and `Socket::listen` say to an address. -/
inductive Answer
  | bound
  | bindFails
  | listenFails
  deriving DecidableEq

/-- Where a task is in the loop of `startAccept`. -/
inductive Pc (C : Type*)
  | loop
  | accepting
  /-- `accept` has returned a client. -/
  | accepted (client : C)
  deriving DecidableEq

/-- A task that runs `startAccept(sock)`. -/
structure Acceptor (C : Type*) where
  sock : ℕ
  pc : Pc C
  deriving DecidableEq

/-- The task of `stop`: not begun, or in its loop with that many sockets closed. -/
inductive Closer
  | scheduled
  | closing (closed : ℕ)
  deriving DecidableEq

/-- What `Socket::accept` does: the descriptor of a client that waits, for which there is a context
or not, or none. -/
inductive Accept
  | takes (j : ℕ) (context : Bool)
  | fails

inductive Act (A C : Type*)
  /-- `debug` says that the logger takes the level `DEBUG`. -/
  | bind (debug : Bool) (addrs : List (A × Answer)) (fails : List A)
  | setRecvTimeout (v : UInt64)
  | start
  | stop
  | arrive (sock : ℕ) (client : C)
  | turn (i : ℕ)
  | accept (i : ℕ) (answer : Accept)
  | hand (i : ℕ)
  | close (i : ℕ)

end TcpServer

open TcpServer

structure TcpServer (C : Type*) where
  m_socks : List ℕ
  m_recvTimeout : UInt64
  m_isStop : Bool
  acceptors : List (Acceptor C)
  closers : List Closer
  /-- The number of sockets made, which names the next one. -/
  made : ℕ
  /-- The sockets that `close` was called for. -/
  shut : List ℕ
  /-- The connections that wait to be accepted, each with the socket it waits on. -/
  backlog : List (ℕ × C)
  /-- The clients scheduled for `handleClient`, with the timeout each was given. -/
  handed : List (C × UInt64)
  arrived : List C
  lost : List C
  /-- The behaviour is undefined. -/
  undefined : Bool
  deriving DecidableEq

namespace TcpServer

variable {A C : Type*}

/-- `TcpServer::TcpServer`, with the timeout of the configuration. -/
def new (timeout : UInt64) : TcpServer C :=
  { m_socks := []
    m_recvTimeout := timeout
    m_isStop := true
    acceptors := []
    closers := []
    made := 0
    shut := []
    backlog := []
    handed := []
    arrived := []
    lost := []
    undefined := false }

/-- Somebody holds the socket, and nobody has closed it. -/
def isOpen (s : TcpServer C) (sock : ℕ) : Bool :=
  !s.shut.contains sock && (s.m_socks.contains sock || s.acceptors.any (·.sock == sock))

/-- The connections that wait on a socket that is no longer open are gone. -/
def settle (s : TcpServer C) : TcpServer C :=
  { s with
    backlog := s.backlog.filter (s.isOpen ·.1)
    lost := s.lost ++ (s.backlog.filter (!s.isOpen ·.1)).map Prod.snd }

/-- A task of `stop` is in its loop over `m_socks`. -/
def iterated (s : TcpServer C) : Bool := s.closers.any (· != .scheduled)

/-- Another task of `stop` is in its loop when this one clears the vector. -/
def clashes (s : TcpServer C) (i : ℕ) : Bool :=
  (s.closers.eraseIdx i).any (· != .scheduled) && !s.m_socks.isEmpty

/-! ### The calls -/

/-- One turn of the loop of `bind`. -/
def bindOne (r : List A × TcpServer C) (addr : A × Answer) : List A × TcpServer C :=
  let made := r.2.made + 1
  match addr.2 with
  | .bound => (r.1, { r.2 with m_socks := r.2.m_socks ++ [r.2.made], made })
  | .bindFails | .listenFails => (r.1 ++ [addr.1], { r.2 with made })

/-- `TcpServer::bind`, with the addresses that have failed; `none` where it reads `*m_socks[0]` of
an empty vector. -/
def bind (s : TcpServer C) (debug : Bool) (addrs : List (A × Answer)) (fails : List A) :
    Option (Bool × List A × TcpServer C) :=
  let r := addrs.foldl bindOne (fails, s)
  if !r.1.isEmpty then some (false, r.1, { r.2 with m_socks := [] })
  else if debug && r.2.m_socks.isEmpty then none
  else some (true, r.1, r.2)

/-- `TcpServer::start` -/
def start (s : TcpServer C) : TcpServer C :=
  if !s.m_isStop then s
  else { s with m_isStop := false, acceptors := s.acceptors ++ s.m_socks.map (⟨·, .loop⟩) }

/-- `TcpServer::stop` -/
def stop (s : TcpServer C) : TcpServer C :=
  { s with m_isStop := true, closers := s.closers ++ [.scheduled] }

/-! ### The tasks -/

def setPc (s : TcpServer C) (i sock : ℕ) (pc : Pc C) : TcpServer C :=
  { s with acceptors := s.acceptors.set i ⟨sock, pc⟩ }

/-- The condition of the loop of `startAccept`. -/
def turn (s : TcpServer C) (i : ℕ) : Option (TcpServer C) :=
  s.acceptors[i]?.bind fun a =>
    match a.pc with
    | .loop =>
      some (if s.m_isStop then { s with acceptors := s.acceptors.eraseIdx i }
        else s.setPc i a.sock .accepting)
    | _ => none

/-- `sock->accept()`. `Socket::init` refuses a descriptor without a context, and leaves it open. -/
def accept (s : TcpServer C) (i : ℕ) (answer : Accept) : Option (TcpServer C) :=
  s.acceptors[i]?.bind fun a =>
    match a.pc, answer with
    | .accepting, .fails => some (s.setPc i a.sock .loop)
    | .accepting, .takes j context =>
      s.backlog[j]?.bind fun c =>
        if c.1 = a.sock then
          let t := { s with backlog := s.backlog.eraseIdx j }
          some (if context then t.setPc i a.sock (.accepted c.2)
            else { t.setPc i a.sock .loop with lost := s.lost ++ [c.2] })
        else none
    | _, _ => none

/-- The client is given its timeout and `handleClient` is scheduled. -/
def hand (s : TcpServer C) (i : ℕ) : Option (TcpServer C) :=
  s.acceptors[i]?.bind fun a =>
    match a.pc with
    | .accepted client =>
      some { s.setPc i a.sock .loop with handed := s.handed ++ [(client, s.m_recvTimeout)] }
    | _ => none

/-- The task of `stop`: one turn of its loop, or `m_socks.clear()` behind it. -/
def close (s : TcpServer C) (i : ℕ) : Option (TcpServer C) :=
  s.closers[i]?.map fun
    | .scheduled => { s with closers := s.closers.set i (.closing 0) }
    | .closing closed =>
      match s.m_socks[closed]? with
      | some sock =>
        { s with shut := sock :: s.shut, closers := s.closers.set i (.closing (closed + 1)) }
      | none =>
        if s.clashes i then { s with undefined := true }
        else { s with m_socks := [], closers := s.closers.eraseIdx i }

/-! ### The steps -/

def act (s : TcpServer C) : Act A C → Option (TcpServer C)
  | .bind debug addrs fails =>
    match s.bind debug addrs fails with
    | none => some { s with undefined := true }
    | some (_, _, t) =>
      some (if s.iterated && t.m_socks ≠ s.m_socks then { s with undefined := true } else t)
  | .setRecvTimeout v => some { s with m_recvTimeout := v }
  | .start => some s.start
  | .stop => some s.stop
  | .arrive sock client =>
    if s.isOpen sock then
      some { s with backlog := s.backlog ++ [(sock, client)], arrived := s.arrived ++ [client] }
    else none
  | .turn i => s.turn i
  | .accept i answer => s.accept i answer
  | .hand i => s.hand i
  | .close i => s.close i

def next (s : TcpServer C) (a : Act A C) : Option (TcpServer C) :=
  if s.undefined then none else (s.act a).map settle

variable {s t : TcpServer C}

/-- The ways in which an act can go. -/
inductive Acts (s : TcpServer C) : Act A C → TcpServer C → Prop
  | undefined {debug addrs} {fails : List A}
      (h : s.bind debug addrs fails = none ∨ s.iterated = true ∧
        ∃ r ∈ s.bind debug addrs fails, r.2.2.m_socks ≠ s.m_socks) :
      Acts s (.bind debug addrs fails) { s with undefined := true }
  | bind {debug addrs ok t} {fails fails' : List A}
      (h : s.bind debug addrs fails = some (ok, fails', t))
      (hsame : s.iterated = true → t.m_socks = s.m_socks) : Acts s (.bind debug addrs fails) t
  | setRecvTimeout (v) : Acts s (.setRecvTimeout v) { s with m_recvTimeout := v }
  | goesOn (h : s.m_isStop = false) : Acts s .start s
  | starts (h : s.m_isStop = true) :
      Acts s .start
        { s with m_isStop := false, acceptors := s.acceptors ++ s.m_socks.map (⟨·, .loop⟩) }
  | stops : Acts s .stop { s with m_isStop := true, closers := s.closers ++ [.scheduled] }
  | arrives {sock client} (h : s.isOpen sock = true) :
      Acts s (.arrive sock client)
        { s with backlog := s.backlog ++ [(sock, client)], arrived := s.arrived ++ [client] }
  | leaves {i a} (ha : s.acceptors[i]? = some a) (hpc : a.pc = .loop) (h : s.m_isStop = true) :
      Acts s (.turn i) { s with acceptors := s.acceptors.eraseIdx i }
  | enters {i a} (ha : s.acceptors[i]? = some a) (hpc : a.pc = .loop) (h : s.m_isStop = false) :
      Acts s (.turn i) (s.setPc i a.sock .accepting)
  | fails {i a} (ha : s.acceptors[i]? = some a) (hpc : a.pc = .accepting) :
      Acts s (.accept i .fails) (s.setPc i a.sock .loop)
  | takes {i j a client} (ha : s.acceptors[i]? = some a) (hpc : a.pc = .accepting)
      (hclient : s.backlog[j]? = some (a.sock, client)) :
      Acts s (.accept i (.takes j true))
        { s.setPc i a.sock (.accepted client) with backlog := s.backlog.eraseIdx j }
  | loses {i j a client} (ha : s.acceptors[i]? = some a) (hpc : a.pc = .accepting)
      (hclient : s.backlog[j]? = some (a.sock, client)) :
      Acts s (.accept i (.takes j false))
        { s.setPc i a.sock .loop with
          backlog := s.backlog.eraseIdx j, lost := s.lost ++ [client] }
  | hands {i a client} (ha : s.acceptors[i]? = some a) (hpc : a.pc = .accepted client) :
      Acts s (.hand i)
        { s.setPc i a.sock .loop with handed := s.handed ++ [(client, s.m_recvTimeout)] }
  | begins {i} (hi : s.closers[i]? = some .scheduled) :
      Acts s (.close i) { s with closers := s.closers.set i (.closing 0) }
  | closes {i closed sock} (hi : s.closers[i]? = some (.closing closed))
      (hsock : s.m_socks[closed]? = some sock) :
      Acts s (.close i)
        { s with shut := sock :: s.shut, closers := s.closers.set i (.closing (closed + 1)) }
  | clashes {i closed} (hi : s.closers[i]? = some (.closing closed))
      (hend : s.m_socks[closed]? = none) (h : s.clashes i = true) :
      Acts s (.close i) { s with undefined := true }
  | clears {i closed} (hi : s.closers[i]? = some (.closing closed))
      (hend : s.m_socks[closed]? = none) (h : s.clashes i = false) :
      Acts s (.close i) { s with m_socks := [], closers := s.closers.eraseIdx i }

theorem acts_of_act {a : Act A C} (h : s.act a = some t) : Acts s a t := by
  cases a with
  | bind debug addrs fails =>
    cases hbind : s.bind debug addrs fails with
    | none =>
      simp only [act, hbind, Option.some.injEq] at h
      subst h
      exact .undefined (.inl hbind)
    | some r =>
      obtain ⟨ok, fails', t'⟩ := r
      simp only [act, hbind, Option.some.injEq] at h
      subst h
      split_ifs with hchanged
      · rw [Bool.and_eq_true, decide_eq_true_eq] at hchanged
        exact .undefined (.inr ⟨hchanged.1, _, hbind, hchanged.2⟩)
      · refine .bind hbind fun hiterated => ?_
        simpa [hiterated] using hchanged
  | setRecvTimeout v =>
    obtain rfl := Option.some.inj h
    exact .setRecvTimeout v
  | start =>
    obtain rfl := Option.some.inj h
    cases hstop : s.m_isStop with
    | false => simpa [start, hstop] using Acts.goesOn hstop
    | true => simpa [start, hstop] using Acts.starts hstop
  | stop =>
    obtain rfl := Option.some.inj h
    exact .stops
  | arrive sock client =>
    simp only [act] at h
    split_ifs at h with hopen
    obtain rfl := Option.some.inj h
    exact .arrives hopen
  | turn i =>
    obtain ⟨a, ha, h⟩ := Option.bind_eq_some_iff.mp h
    cases hpc : a.pc with
    | loop =>
      simp only [hpc, Option.some.injEq] at h
      subst h
      split_ifs with hstop
      · exact .leaves ha hpc hstop
      · exact .enters ha hpc (Bool.eq_false_iff.mpr hstop)
    | accepting => simp [hpc] at h
    | accepted client => simp [hpc] at h
  | accept i answer =>
    obtain ⟨a, ha, h⟩ := Option.bind_eq_some_iff.mp h
    cases hpc : a.pc with
    | loop => simp [hpc] at h
    | accepted client => simp [hpc] at h
    | accepting =>
      cases answer with
      | fails =>
        simp only [hpc, Option.some.injEq] at h
        subst h
        exact .fails ha hpc
      | takes j context =>
        simp only [hpc] at h
        obtain ⟨⟨sock, client⟩, hclient, h⟩ := Option.bind_eq_some_iff.mp h
        by_cases hsock : sock = a.sock
        · subst hsock
          rw [if_pos rfl] at h
          obtain rfl := Option.some.inj h
          cases context with
          | true => exact .takes ha hpc hclient
          | false => exact .loses ha hpc hclient
        · rw [if_neg hsock] at h
          cases h
  | hand i =>
    obtain ⟨a, ha, h⟩ := Option.bind_eq_some_iff.mp h
    cases hpc : a.pc with
    | loop => simp [hpc] at h
    | accepting => simp [hpc] at h
    | accepted client =>
      simp only [hpc, Option.some.injEq] at h
      subst h
      exact .hands ha hpc
  | close i =>
    obtain ⟨c, hi, h⟩ := Option.map_eq_some_iff.mp h
    cases c with
    | scheduled =>
      subst h
      exact .begins hi
    | closing closed =>
      subst h
      cases hsock : s.m_socks[closed]? with
      | some sock => simpa [hsock] using Acts.closes hi hsock
      | none =>
        cases hclash : s.clashes i with
        | true => simpa [hsock, hclash] using Acts.clashes hi hsock hclash
        | false => simpa [hsock, hclash] using Acts.clears hi hsock hclash

/-! ### The calls of `bind` -/

/-- The addresses that a call of `bind` adds to `fails`. -/
def failing (addrs : List (A × Answer)) : List A := (addrs.filter (·.2 != .bound)).map Prod.fst

/-- Sockets made by the next `n` calls of `CreateTCP`. -/
structure MadeBy (made n : ℕ) (socks : List ℕ) : Prop where
  nodup : socks.Nodup
  le : ∀ sock ∈ socks, made ≤ sock
  lt : ∀ sock ∈ socks, sock < made + n

theorem bindLoop_eq (addrs : List (A × Answer)) (fails : List A) (s : TcpServer C) :
    ∃ socks, addrs.foldl bindOne (fails, s) = (fails ++ failing addrs,
        { s with m_socks := s.m_socks ++ socks, made := s.made + addrs.length }) ∧
      MadeBy s.made addrs.length socks ∧ socks.length + (failing addrs).length = addrs.length := by
  induction addrs generalizing fails s with
  | nil =>
    refine ⟨[], ?_, ⟨List.nodup_nil, by simp, by simp⟩, rfl⟩
    simp [failing]
  | cons addr addrs ih =>
    obtain ⟨addr, answer⟩ := addr
    rw [List.foldl_cons]
    cases answer with
    | bound =>
      obtain ⟨socks, hloop, hmade, hlength⟩ :=
        ih fails { s with m_socks := s.m_socks ++ [s.made], made := s.made + 1 }
      have hfailing : failing ((addr, Answer.bound) :: addrs) = failing addrs := by
        simp [failing]
      refine ⟨s.made :: socks, ?_, ⟨?_, ?_, ?_⟩, ?_⟩
      · simpa [bindOne, hfailing, Nat.add_assoc, Nat.add_comm 1] using hloop
      · refine List.nodup_cons.mpr ⟨fun hmem => ?_, hmade.nodup⟩
        have : s.made + 1 ≤ s.made := hmade.le _ hmem
        omega
      · intro sock hsock
        rcases List.mem_cons.mp hsock with rfl | hsock
        · exact Nat.le_refl _
        · have : s.made + 1 ≤ sock := hmade.le _ hsock
          omega
      · intro sock hsock
        rw [List.length_cons]
        rcases List.mem_cons.mp hsock with rfl | hsock
        · omega
        · have : sock < s.made + 1 + addrs.length := hmade.lt _ hsock
          omega
      · rw [hfailing, List.length_cons, List.length_cons]
        omega
    | bindFails | listenFails =>
      obtain ⟨socks, hloop, hmade, hlength⟩ := ih (fails ++ [addr]) { s with made := s.made + 1 }
      refine ⟨socks, ?_, ⟨hmade.nodup, ?_, ?_⟩, ?_⟩
      · simpa [bindOne, failing, Nat.add_assoc, Nat.add_comm 1] using hloop
      · intro sock hsock
        have : s.made + 1 ≤ sock := hmade.le _ hsock
        omega
      · intro sock hsock
        have : sock < s.made + 1 + addrs.length := hmade.lt _ hsock
        rw [List.length_cons]
        omega
      · simp only [failing, List.filter_cons, List.length_cons] at hlength ⊢
        simp only [bne_iff_ne, ne_eq, reduceCtorEq, not_false_eq_true, if_true, List.map_cons,
          List.length_cons]
        omega

/-- All or nothing: behind an address that has failed, in this call or an earlier one with the same
vector, no socket is left. -/
theorem bind_eq {debug ok : Bool} {addrs : List (A × Answer)} {fails fails' : List A}
    (h : s.bind debug addrs fails = some (ok, fails', t)) :
    fails' = fails ++ failing addrs ∧ (ok = true ↔ fails' = []) ∧
      ∃ socks, MadeBy s.made addrs.length socks ∧
        socks.length + (failing addrs).length = addrs.length ∧
        t = { s with
          m_socks := if ok then s.m_socks ++ socks else []
          made := s.made + addrs.length } := by
  obtain ⟨socks, hloop, hmade, hlength⟩ := bindLoop_eq addrs fails s
  rw [bind, hloop] at h
  by_cases hfails : fails ++ failing addrs = []
  · rw [hfails] at h ⊢
    simp only [List.isEmpty_nil, Bool.not_true, Bool.false_eq_true, if_false] at h
    split_ifs at h
    cases h
    exact ⟨rfl, by simp, socks, hmade, hlength, by simp⟩
  · have hempty : (fails ++ failing addrs).isEmpty = false := by
      rwa [Bool.eq_false_iff, ne_eq, List.isEmpty_iff]
    simp only [hempty, Bool.not_false, if_true] at h
    cases h
    exact ⟨rfl, by simp [hfails], socks, hmade, hlength, by simp⟩

/-- With an address, `bind` comes to an end. -/
theorem exists_bind (debug : Bool) {addrs : List (A × Answer)} (haddrs : addrs ≠ [])
    (fails : List A) (s : TcpServer C) :
    ∃ t, s.bind debug addrs fails =
      some ((fails ++ failing addrs).isEmpty, fails ++ failing addrs, t) := by
  obtain ⟨socks, hloop, -, hlength⟩ := bindLoop_eq addrs fails s
  rw [bind, hloop]
  cases hempty : (fails ++ failing addrs).isEmpty with
  | false => exact ⟨_, rfl⟩
  | true =>
    have hnone : failing addrs = [] := (List.append_eq_nil_iff.mp (List.isEmpty_iff.mp hempty)).2
    have hpos : 0 < addrs.length := List.length_pos_iff.mpr haddrs
    have hsocks : s.m_socks ++ socks ≠ [] := by
      refine List.append_ne_nil_of_right_ne_nil _ (List.length_pos_iff.mp ?_)
      rw [hnone, List.length_nil] at hlength
      omega
    refine ⟨{ s with m_socks := s.m_socks ++ socks, made := s.made + addrs.length }, ?_⟩
    simp [hsocks]

/-- `while(!server->bind(addrs, fails)) sleep(2);`, for what the rounds meet. The rounds share one
vector `fails`, or each has its own, as in `bind(addr)`; `none` as long as the loop goes on. -/
def retry (debug shared : Bool) :
    List (List (A × Answer)) → List A → TcpServer C → Option (TcpServer C)
  | [], _, _ => none
  | addrs :: rounds, fails, s =>
    (s.bind debug addrs fails).bind fun r =>
      if r.1 then some r.2.2
      else retry debug shared rounds (if shared then r.2.1 else []) r.2.2

theorem retry_cons (debug shared : Bool) {addrs : List (A × Answer)}
    {rounds : List (List (A × Answer))} (haddrs : addrs ≠ []) (fails : List A) (s : TcpServer C) :
    (fails ++ failing addrs = [] ∧ (retry debug shared (addrs :: rounds) fails s).isSome = true) ∨
      (fails ++ failing addrs ≠ [] ∧ ∃ t, retry debug shared (addrs :: rounds) fails s =
        retry debug shared rounds (if shared then fails ++ failing addrs else []) t) := by
  obtain ⟨t, hbind⟩ := exists_bind debug haddrs fails s
  by_cases hfails : fails ++ failing addrs = []
  · refine .inl ⟨hfails, ?_⟩
    rw [retry, hbind, hfails]
    rfl
  · have hempty : (fails ++ failing addrs).isEmpty = false := by
      rwa [Bool.eq_false_iff, ne_eq, List.isEmpty_iff]
    refine .inr ⟨hfails, t, ?_⟩
    rw [retry, hbind, Option.bind_some, hempty]
    rfl

/-- What one round has put into a shared vector no later one takes out. -/
theorem retry_shared_eq_none {debug : Bool} {rounds : List (List (A × Answer))} {fails : List A}
    (hrounds : ∀ addrs ∈ rounds, addrs ≠ []) (hfails : fails ≠ []) (s : TcpServer C) :
    retry debug true rounds fails s = none := by
  induction rounds generalizing fails s with
  | nil => rfl
  | cons addrs rounds ih =>
    have hmore : fails ++ failing addrs ≠ [] := List.append_ne_nil_of_left_ne_nil hfails _
    rcases retry_cons debug true (hrounds addrs List.mem_cons_self) fails s
      with ⟨hnil, -⟩ | ⟨-, t, hretry⟩
    · exact absurd hnil hmore
    · rw [hretry, if_pos rfl]
      exact ih (fun addrs' h => hrounds addrs' (List.mem_cons_of_mem _ h)) hmore t

/-- **Binding again.** Whatever the later rounds would find, the loop with one vector for all rounds
ends only in its first round, when no address fails; with a vector for each round it ends in the
first round in which no address fails. -/
theorem retry_iff (debug : Bool) {rounds : List (List (A × Answer))}
    (hrounds : ∀ addrs ∈ rounds, addrs ≠ []) (s : TcpServer C) :
    ((retry debug true rounds [] s).isSome = true ↔ ∃ addrs ∈ rounds.head?, failing addrs = []) ∧
      ((retry debug false rounds [] s).isSome = true ↔ ∃ addrs ∈ rounds, failing addrs = []) := by
  induction rounds generalizing s with
  | nil => simp [retry]
  | cons addrs rounds ih =>
    have haddrs := hrounds addrs List.mem_cons_self
    have hrest : ∀ addrs' ∈ rounds, addrs' ≠ [] :=
      fun addrs' h => hrounds addrs' (List.mem_cons_of_mem _ h)
    constructor
    · rcases retry_cons debug true haddrs [] s with
        ⟨hnil, hsome⟩ | ⟨hfails, t, hretry⟩
      · exact iff_of_true hsome ⟨addrs, rfl, hnil⟩
      · rw [hretry, if_pos rfl, retry_shared_eq_none hrest hfails t]
        refine iff_of_false nofun ?_
        rintro ⟨addrs', hhead, hnil⟩
        obtain rfl := Option.some.inj hhead
        exact hfails hnil
    · rcases retry_cons debug false haddrs [] s with
        ⟨hnil, hsome⟩ | ⟨hfails, t, hretry⟩
      · exact iff_of_true hsome ⟨addrs, List.mem_cons_self, hnil⟩
      · rw [hretry, if_neg Bool.false_ne_true, (ih hrest t).2, List.exists_mem_cons_iff]
        exact (or_iff_right hfails).symm

/-- The port is taken in the first round, and free from then on. -/
def freed : List (List (ℕ × Answer)) := [[(8033, .bindFails)], [(8033, .bound)], [(8033, .bound)]]

theorem retry_iff_freed :
    ((retry true true freed [] (new 120000 : TcpServer ℕ)).isSome = true ↔
        ∃ addrs ∈ freed.head?, failing addrs = []) ∧
      ((retry true false freed [] (new 120000 : TcpServer ℕ)).isSome = true ↔
        ∃ addrs ∈ freed, failing addrs = []) :=
  retry_iff true (by simp [freed]) (new 120000)

end TcpServer

end Muhui
