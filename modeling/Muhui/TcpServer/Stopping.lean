/-
  A `TcpServer` that is stopped.

  The task of `stop` closes the sockets, and each task of `startAccept` ends at the latest when it
  has handed on the client it holds.  `work` counts the turns that are left, and until there are
  none one of the tasks can go on (`down_or_due`).
-/
import Muhui.TcpServer.Serving

namespace Muhui

namespace TcpServer

variable {A C : Type*} {s t : TcpServer C}

/-! ### Orderly runs -/

/-- `bind` and `start` find nothing left from before, and `stop` is not called again before the task
of the last call is through. -/
def Orderly (s : TcpServer C) : Act A C → Prop
  | .start => s.m_isStop = true → s.closers = [] ∧ s.acceptors = []
  | .bind debug addrs fails =>
    (debug = true → fails ++ failing addrs = [] → s.m_socks ≠ [] ∨ addrs ≠ []) ∧
      s.m_isStop = true ∧ s.closers = [] ∧ s.acceptors = []
  | .stop => s.closers = []
  | _ => True

instance [DecidableEq A] (s : TcpServer C) : ∀ a : Act A C, Decidable (Orderly s a)
  | .start => inferInstanceAs (Decidable (_ → _ ∧ _))
  | .bind _ _ _ => inferInstanceAs (Decidable ((_ → _ → _ ∨ _) ∧ _ ∧ _ ∧ _))
  | .stop => inferInstanceAs (Decidable (_ = _))
  | .setRecvTimeout _ | .arrive _ _ | .turn _ | .accept _ _ | .hand _ | .close _ =>
    inferInstanceAs (Decidable True)

/-- What an orderly run keeps: there is one task of `stop` at most, and when the server is stopped,
the socket of each task that accepts is closed or about to be. -/
structure Sound (s : TcpServer C) : Prop where
  defined : s.undefined = false
  running : s.m_isStop = false →
    s.closers = [] ∧ (s.acceptors.map Acceptor.sock).Perm s.m_socks
  single : s.closers.length ≤ 1
  stopped : s.m_isStop = true → ∀ sock ∈ s.acceptors.map Acceptor.sock,
    sock ∈ s.shut ∨ sock ∈ s.m_socks ∧ s.closers ≠ []
  closed : ∀ closed, .closing closed ∈ s.closers →
    ∀ j < closed, ∀ sock, s.m_socks[j]? = some sock → sock ∈ s.shut

theorem eq_singleton {l : List Closer} {i : ℕ} {c : Closer} (hl : l.length ≤ 1)
    (hi : l[i]? = some c) : i = 0 ∧ l = [c] := by
  match l, i with
  | [], _ => cases hi
  | [_], 0 =>
    obtain rfl := Option.some.inj hi
    exact ⟨rfl, rfl⟩
  | [_], _ + 1 => cases hi
  | _ :: _ :: _, _ =>
    simp only [List.length_cons] at hl
    omega

theorem sound_new (timeout : UInt64) : Sound (new timeout : TcpServer C) where
  defined := rfl
  running := nofun
  single := Nat.zero_le 1
  stopped := fun _ => nofun
  closed := nofun

theorem Sound.acts {a : Act A C} (h : Sound s) (horderly : Orderly s a) (hacts : Acts s a t) :
    Sound t := by
  cases hacts with
  | undefined hundefined =>
    obtain ⟨hends, hstop, hclosers, -⟩ := horderly
    have hiterated : s.iterated = false := by rw [iterated, hclosers]; rfl
    obtain ⟨r, hr, -⟩ := inPlace_bind_iff.mp ⟨hends, fun hwhen => by simp_all⟩
    rcases hundefined with hnone | ⟨htrue, -⟩
    · rw [hnone] at hr
      cases hr
    · rw [hiterated] at htrue
      cases htrue
  | bind hbind _ =>
    obtain ⟨-, hstop, hclosers, hacceptors⟩ := horderly
    obtain ⟨-, -, socks, -, -, rfl⟩ := bind_eq hbind
    refine ⟨h.defined, fun hrunning => ?_, h.single, fun _ => ?_, ?_⟩
    · exact absurd (hrunning.symm.trans hstop) Bool.false_ne_true
    · show ∀ sock ∈ s.acceptors.map Acceptor.sock, _
      rw [hacceptors]
      exact List.forall_mem_nil _
    · show ∀ closed, .closing closed ∈ s.closers → _
      rw [hclosers]
      exact fun _ hmem => absurd hmem List.not_mem_nil
  | starts hstop =>
    obtain ⟨hclosers, hacceptors⟩ := horderly hstop
    refine ⟨h.defined, fun _ => ⟨hclosers, ?_⟩, h.single,
      fun hstop => absurd hstop Bool.false_ne_true, h.closed⟩
    simp [hacceptors, Function.comp_def]
  | stops =>
    have hclosers : s.closers = [] := horderly
    refine ⟨h.defined, fun hrunning => absurd hrunning.symm Bool.false_ne_true, ?_,
      fun _ sock hsock => ?_, fun closed hclosed => ?_⟩
    · simp [hclosers]
    · cases hstop : s.m_isStop with
      | false =>
        refine .inr ⟨(h.running hstop).2.mem_iff.mp hsock, ?_⟩
        exact List.append_ne_nil_of_right_ne_nil _ (List.cons_ne_nil _ _)
      | true =>
        rcases h.stopped hstop sock hsock with hshut | ⟨-, hpending⟩
        · exact .inl hshut
        · exact absurd hclosers hpending
    · simp [hclosers] at hclosed
  | leaves _ _ hstop =>
    refine ⟨h.defined, fun hrunning => ?_, h.single, fun _ sock hsock => ?_, h.closed⟩
    · exact absurd (hrunning.symm.trans hstop) Bool.false_ne_true
    · obtain ⟨a, ha, rfl⟩ := List.mem_map.mp hsock
      exact h.stopped hstop _ (List.mem_map_of_mem (List.mem_of_mem_eraseIdx ha))
  | enters ha _ _ | fails ha _ | takes ha _ _ | loses ha _ _ | hands ha _ =>
    refine ⟨h.defined, fun hrunning => ?_, h.single, fun hstop => ?_, h.closed⟩
    · simp only [setPc]
      rw [map_sock_set ha]
      exact h.running hrunning
    · simp only [setPc]
      rw [map_sock_set ha]
      exact h.stopped hstop
  | begins hi =>
    obtain ⟨rfl, hclosers⟩ := eq_singleton h.single hi
    refine ⟨h.defined, fun hrunning => ?_, ?_, fun hstop sock hsock => ?_, fun closed hclosed => ?_⟩
    · rw [(h.running hrunning).1] at hclosers
      cases hclosers
    · simp [hclosers]
    · refine (h.stopped hstop sock hsock).imp_right fun hmem => ⟨hmem.1, ?_⟩
      simp [hclosers]
    · replace hclosed : Closer.closing closed ∈ s.closers.set 0 (.closing 0) := hclosed
      simp only [hclosers, List.set_cons_zero, List.mem_singleton, Closer.closing.injEq] at hclosed
      intro j hj
      omega
  | @closes i k sock hi hsock =>
    obtain ⟨rfl, hclosers⟩ := eq_singleton h.single hi
    refine ⟨h.defined, fun hrunning => ?_, ?_, fun hstop sock' hsock' => ?_,
      fun closed hclosed j hj sock' hsock' => ?_⟩
    · rw [(h.running hrunning).1] at hclosers
      cases hclosers
    · simp [hclosers]
    · refine (h.stopped hstop sock' hsock').imp (List.mem_cons_of_mem _) fun hmem => ⟨hmem.1, ?_⟩
      simp [hclosers]
    · replace hclosed : Closer.closing closed ∈ s.closers.set 0 (.closing (k + 1)) := hclosed
      simp only [hclosers, List.set_cons_zero, List.mem_singleton, Closer.closing.injEq] at hclosed
      rcases Nat.lt_or_ge j k with hlt | hge
      · refine List.mem_cons_of_mem _ (h.closed k ?_ j hlt sock' hsock')
        rw [hclosers]
        exact List.mem_cons_self
      · obtain rfl : j = k := by omega
        obtain rfl := Option.some.inj (hsock.symm.trans hsock')
        exact List.mem_cons_self
  | clashes hi _ hclash =>
    obtain ⟨rfl, hclosers⟩ := eq_singleton h.single hi
    simp [TcpServer.clashes, hclosers] at hclash
  | @clears i k hi hend _ =>
    obtain ⟨rfl, hclosers⟩ := eq_singleton h.single hi
    -- the loop has come by all sockets
    have hall : ∀ sock ∈ s.m_socks, sock ∈ s.shut := by
      intro sock hsock
      obtain ⟨j, hj⟩ := List.getElem?_of_mem hsock
      have hlt : j < s.m_socks.length := (List.getElem?_eq_some_iff.mp hj).1
      have hge := List.getElem?_eq_none_iff.mp hend
      refine h.closed k ?_ j (by omega) sock hj
      rw [hclosers]
      exact List.mem_cons_self
    refine ⟨h.defined, fun hrunning => ?_, ?_, fun hstop sock hsock => .inl ?_, ?_⟩
    · rw [(h.running hrunning).1] at hclosers
      cases hclosers
    · simp [hclosers]
    · exact (h.stopped hstop sock hsock).elim id fun hmem => hall sock hmem.1
    · simp [hclosers]
  | _ => exact ⟨h.defined, h.running, h.single, h.stopped, h.closed⟩

/-! ### The work that is left -/

/-- Not a call of the server. -/
def IsTurn : Act A C → Prop
  | .bind _ _ _ | .start | .stop => False
  | _ => True

/-- A turn of one of the server's own tasks. -/
def isWork : Act A C → Bool
  | .turn _ | .accept _ _ | .hand _ | .close _ => true
  | _ => false

/-- The turns that a task has before it when the server is stopped. -/
def acceptorWork (a : Acceptor C) : ℕ :=
  match a.pc with
  | .loop => 1
  | .accepted _ => 2
  | .accepting => 3

def closerWork (socks : ℕ) : Closer → ℕ
  | .scheduled => socks + 2
  | .closing closed => socks - closed + 1

def work (s : TcpServer C) : ℕ :=
  (s.acceptors.map acceptorWork).sum + (s.closers.map (closerWork s.m_socks.length)).sum

/-- Whether a task will hand on a client before it looks at `m_isStop` again. -/
def pendingClient (a : Acceptor C) : ℕ :=
  match a.pc with
  | .loop => 0
  | _ => 1

def pending (s : TcpServer C) : ℕ := (s.acceptors.map pendingClient).sum

theorem sum_eraseIdx {l : List (Acceptor C)} {i : ℕ} {a : Acceptor C} (ha : l[i]? = some a)
    (f : Acceptor C → ℕ) : ((l.eraseIdx i).map f).sum + f a = (l.map f).sum := by
  obtain ⟨hlt, rfl⟩ := List.getElem?_eq_some_iff.mp ha
  have hsum := ((List.getElem_cons_eraseIdx_perm hlt).map f).sum_nat
  rw [List.map_cons, List.sum_cons] at hsum
  omega

theorem sum_set {l : List (Acceptor C)} {i : ℕ} {a : Acceptor C} (ha : l[i]? = some a)
    (f : Acceptor C → ℕ) (b : Acceptor C) :
    ((l.set i b).map f).sum + f a = (l.map f).sum + f b := by
  have herase := sum_eraseIdx ha f
  obtain ⟨hlt, -⟩ := List.getElem?_eq_some_iff.mp ha
  have hsum := ((List.set_perm_cons_eraseIdx hlt b).map f).sum_nat
  rw [List.map_cons, List.sum_cons] at hsum
  omega

/-- The server is stopped, and there is a task that will clear `m_socks` where it is not cleared. -/
def Stopping (s : TcpServer C) : Prop := s.m_isStop = true ∧ (s.closers = [] → s.m_socks = [])

theorem Stopping.acts {a : Act A C} (h : Stopping s) (hturn : IsTurn a) (hacts : Acts s a t) :
    Stopping t := by
  cases hacts with
  | undefined _ | bind _ _ | goesOn _ | starts _ | stops => exact hturn.elim
  | begins hi | closes hi _ =>
    obtain ⟨hlt, -⟩ := List.getElem?_eq_some_iff.mp hi
    refine ⟨h.1, fun hnil => ?_⟩
    rw [List.set_eq_nil_iff] at hnil
    simp [hnil] at hlt
  | clears _ _ _ => exact ⟨h.1, fun _ => rfl⟩
  | _ => exact h

/-- Once the server is stopped, each turn of a task takes a turn off what is left to do, and a
client that is handed on was pending. -/
theorem work_acts {a : Act A C} (h : Sound s) (hstop : Stopping s) (hturn : IsTurn a)
    (horderly : Orderly s a) (hacts : Acts s a t) :
    t.work + (if isWork a then 1 else 0) ≤ s.work ∧
      t.handed.length + t.pending ≤ s.handed.length + s.pending := by
  cases hacts with
  | undefined _ | bind _ _ | goesOn _ | starts _ | stops => exact hturn.elim
  | setRecvTimeout _ | arrives _ => exact ⟨Nat.le_refl _, Nat.le_refl _⟩
  | leaves ha hpc _ =>
    have hwork := sum_eraseIdx ha acceptorWork
    have hpending := sum_eraseIdx ha pendingClient
    simp only [acceptorWork, pendingClient, hpc] at hwork hpending
    simp only [work, pending, isWork, if_true]
    omega
  | enters _ _ hrunning => exact absurd (hstop.1.symm.trans hrunning) nofun
  | @fails i a ha hpc =>
    have hwork := sum_set ha acceptorWork ⟨a.sock, .loop⟩
    have hpending := sum_set ha pendingClient ⟨a.sock, .loop⟩
    simp only [acceptorWork, pendingClient, hpc] at hwork hpending
    simp only [work, pending, isWork, if_true, setPc]
    omega
  | @takes i j a client ha hpc _ =>
    have hwork := sum_set ha acceptorWork ⟨a.sock, .accepted client⟩
    have hpending := sum_set ha pendingClient ⟨a.sock, .accepted client⟩
    simp only [acceptorWork, pendingClient, hpc] at hwork hpending
    simp only [work, pending, isWork, if_true, setPc]
    omega
  | @loses i j a client ha hpc _ =>
    have hwork := sum_set ha acceptorWork ⟨a.sock, .loop⟩
    have hpending := sum_set ha pendingClient ⟨a.sock, .loop⟩
    simp only [acceptorWork, pendingClient, hpc] at hwork hpending
    simp only [work, pending, isWork, if_true, setPc]
    omega
  | @hands i a client ha hpc =>
    have hwork := sum_set ha acceptorWork ⟨a.sock, .loop⟩
    have hpending := sum_set ha pendingClient ⟨a.sock, .loop⟩
    simp only [acceptorWork, pendingClient, hpc] at hwork hpending
    simp only [work, pending, isWork, if_true, setPc, List.length_append, List.length_singleton]
    omega
  | begins hi =>
    obtain ⟨rfl, hclosers⟩ := eq_singleton h.single hi
    refine ⟨?_, Nat.le_refl _⟩
    simp only [work, hclosers, closerWork, isWork, List.set_cons_zero, List.map_cons, List.map_nil,
      List.sum_cons, List.sum_nil, if_true]
    omega
  | @closes i k sock hi hsock =>
    obtain ⟨rfl, hclosers⟩ := eq_singleton h.single hi
    obtain ⟨hlt, -⟩ := List.getElem?_eq_some_iff.mp hsock
    refine ⟨?_, Nat.le_refl _⟩
    simp only [work, hclosers, closerWork, isWork, List.set_cons_zero, List.map_cons, List.map_nil,
      List.sum_cons, List.sum_nil, if_true]
    omega
  | clashes hi hend hclash =>
    obtain ⟨rfl, hclosers⟩ := eq_singleton h.single hi
    simp [TcpServer.clashes, hclosers] at hclash
  | clears hi _ _ =>
    obtain ⟨rfl, hclosers⟩ := eq_singleton h.single hi
    refine ⟨?_, Nat.le_refl _⟩
    simp [work, hclosers, closerWork, isWork]

/-! ### The end -/

/-- Nothing is left of the server, and each client that has connected was handed on or is lost. -/
structure Down (s : TcpServer C) : Prop where
  acceptors : s.acceptors = []
  closers : s.closers = []
  closed : ∀ sock, s.isOpen sock = false
  backlog : s.backlog = []
  accounted : s.arrived.Perm (s.handed.map Prod.fst ++ s.lost)

/-- A task can take its next turn, and does not wait for a client. -/
def Due (s : TcpServer C) (a : Act A C) : Prop :=
  (s.next a).isSome = true ∧
    match a with
    | .turn _ | .hand _ | .close _ => True
    | .accept i .fails => ∀ b ∈ s.acceptors[i]?, s.isOpen b.sock = false
    | _ => False

/-- A server that is stopped is down, or one of its tasks can go on. -/
theorem down_or_due (hinv : Inv s) (h : Sound s) (hstop : Stopping s) :
    Down s ∨ ∃ a : Act A C, Due s a := by
  cases hclosers : s.closers with
  | cons c rest =>
    refine .inr ⟨.close 0, ?_, trivial⟩
    simp [TcpServer.next, h.defined, act, close, hclosers]
  | nil =>
    have hsocks : s.m_socks = [] := hstop.2 hclosers
    cases hacceptors : s.acceptors with
    | nil =>
      have hclosed (sock : ℕ) : s.isOpen sock = false := by
        simp [isOpen, hsocks, hacceptors]
      have hbacklog : s.backlog = [] := by
        refine List.eq_nil_iff_forall_not_mem.mpr fun c hc => ?_
        exact absurd ((hclosed c.1).symm.trans (hinv.waiting c hc)) Bool.false_ne_true
      refine .inl ⟨hacceptors, hclosers, hclosed, hbacklog, ?_⟩
      have haccounted := hinv.accounted
      simpa [Accounted, hbacklog, hacceptors] using haccounted
    | cons a rest =>
      have ha : s.acceptors[0]? = some a := by rw [hacceptors]; rfl
      have hshut : s.isOpen a.sock = false := by
        rcases h.stopped hstop.1 a.sock (by simp [hacceptors]) with hshut | ⟨hmem, -⟩
        · simp [isOpen, hshut]
        · simp [hsocks] at hmem
      cases hpc : a.pc with
      | loop =>
        refine .inr ⟨.turn 0, ?_, trivial⟩
        simp [TcpServer.next, h.defined, act, turn, ha, hpc]
      | accepted client =>
        refine .inr ⟨.hand 0, ?_, trivial⟩
        simp [TcpServer.next, h.defined, act, hand, ha, hpc]
      | accepting =>
        refine .inr ⟨.accept 0 .fails, ?_, fun b hb => ?_⟩
        · simp [TcpServer.next, h.defined, act, accept, ha, hpc]
        · obtain rfl := Option.mem_unique hb ha
          exact hshut

/-! ### Runs -/

theorem orderly_of_isTurn {a : Act A C} (h : IsTurn a) : Orderly s a := by
  cases a with
  | bind debug addrs fails => exact h.elim
  | start => exact h.elim
  | stop => exact h.elim
  | _ => trivial

theorem Sound.next {a : Act A C} (h : Sound s) (horderly : Orderly s a)
    (hnext : s.next a = some t) : Sound t := by
  obtain ⟨-, t', hacts, rfl⟩ := next_eq_some hnext
  have ht' := h.acts horderly hacts
  exact ⟨ht'.defined, ht'.running, ht'.single, ht'.stopped, ht'.closed⟩

/-- The turns behind a call of `stop`. -/
theorem work_of_run {bs : List (Act A C)} (hinv : Inv s) (h : Sound s) (hstop : Stopping s)
    (hturns : ∀ b ∈ bs, IsTurn b) (hrun : Transition.run TcpServer.next s bs = some t) :
    (Inv t ∧ Sound t ∧ Stopping t) ∧ t.work + bs.countP isWork ≤ s.work ∧
      t.handed.length + t.pending ≤ s.handed.length + s.pending := by
  induction bs generalizing s with
  | nil =>
    obtain rfl := Option.some.inj hrun
    exact ⟨⟨hinv, h, hstop⟩, Nat.le_refl _, Nat.le_refl _⟩
  | cons b bs ih =>
    obtain ⟨s', hnext, hrun⟩ := Transition.run_cons_eq_some.mp hrun
    have hturn := hturns b List.mem_cons_self
    obtain ⟨-, t', hacts, rfl⟩ := next_eq_some hnext
    obtain ⟨hwork, hpending⟩ := work_acts h hstop hturn (orderly_of_isTurn hturn) hacts
    have hstop' : Stopping t' := hstop.acts hturn hacts
    obtain ⟨hkept, hworks, hpendings⟩ := ih (hinv.next hnext)
      (h.next (orderly_of_isTurn hturn) hnext) hstop'
      (fun b' hb' => hturns b' (List.mem_cons_of_mem _ hb')) hrun
    refine ⟨hkept, ?_, hpendings.trans hpending⟩
    rw [List.countP_cons]
    have : t.work + bs.countP isWork ≤ t'.work := hworks
    omega

theorem work_le (l : List (Acceptor C)) : (l.map acceptorWork).sum ≤ 3 * l.length := by
  induction l with
  | nil => exact Nat.le_refl _
  | cons a l ih =>
    have ha : acceptorWork a ≤ 3 := by cases hpc : a.pc <;> simp [acceptorWork, hpc]
    simp only [List.map_cons, List.sum_cons, List.length_cons]
    omega

theorem pending_le (l : List (Acceptor C)) : (l.map pendingClient).sum ≤ l.length := by
  induction l with
  | nil => exact Nat.le_refl _
  | cons a l ih =>
    have ha : pendingClient a ≤ 1 := by cases hpc : a.pc <;> simp [pendingClient, hpc]
    simp only [List.map_cons, List.sum_cons, List.length_cons]
    omega

/-- **Stopping.** After an orderly run that ends with a call of `stop`, and before the next call:
whatever the order of the turns, and whoever connects, the tasks take no more than three turns each
and the task of `stop` one for each socket and two, they hand on no more clients than there are
tasks, and as long as the server is not down, with every socket closed and each client handed on or
lost, one of the tasks can go on. -/
theorem down_of_stop {timeout : UInt64} {as bs : List (Act A C)} {s t : TcpServer C}
    (horderly : Transition.StepsMeet next Orderly (new timeout) (as ++ [.stop]))
    (hrun : Transition.run next (new timeout) as = some s) (hturns : ∀ b ∈ bs, IsTurn b)
    (hstop : Transition.run next s (.stop :: bs) = some t) :
    bs.countP isWork ≤ 3 * s.acceptors.length + s.m_socks.length + 2 ∧
      t.handed.length ≤ s.handed.length + s.acceptors.length ∧
      (Down t ∨ ∃ a : Act A C, Due t a) := by
  have hkept : Inv s ∧ Sound s :=
    Transition.invariant_of_stepsMeet (fun s => Inv s ∧ Sound s)
      (fun _ _ _ h hok hnext => ⟨h.1.next hnext, h.2.next hok hnext⟩)
      ⟨inv_new timeout, sound_new timeout⟩ horderly.of_append hrun
  obtain ⟨s', hnext, hbs⟩ := Transition.run_cons_eq_some.mp hstop
  have hnone : s.closers = [] := (horderly.after hrun).1
  obtain ⟨-, s₁, hacts, rfl⟩ := next_eq_some hnext
  cases hacts
  have hstopping : Stopping
      (settle { s with m_isStop := true, closers := s.closers ++ [.scheduled] }) := by
    refine ⟨rfl, fun hnil => ?_⟩
    exact absurd hnil (List.append_ne_nil_of_right_ne_nil _ nofun)
  obtain ⟨⟨hinv, hsound, hstopped⟩, hwork, hpending⟩ :=
    work_of_run (hkept.1.next hnext) (hkept.2.next (a := .stop) hnone hnext) hstopping hturns hbs
  refine ⟨?_, ?_, down_or_due hinv hsound hstopped⟩
  · have hacceptors := work_le s.acceptors
    simp only [work, settle, hnone, List.nil_append, List.map_cons, List.map_nil, List.sum_cons,
      List.sum_nil, closerWork] at hwork
    omega
  · have hacceptors := pending_le s.acceptors
    simp only [pending, settle] at hpending
    omega

/-- Two sockets, a task in `accept` on each and a client that waits, when `stop` is called. -/
def beforeStop : List (Act ℕ ℕ) :=
  [.bind true [(8020, .bound), (8033, .bound)] [], .start, .turn 1, .turn 0, .arrive 1 7]

theorem down_of_stop_two_sockets :
    let s := beforeStop.foldl step (new 120000)
    let bs : List (Act ℕ ℕ) :=
      [.close 0, .close 0, .accept 0 .fails, .accept 1 (.takes 0 true), .close 0, .turn 0, .hand 0,
        .close 0, .turn 0]
    let t := bs.foldl step (s.step (.stop : Act ℕ ℕ))
    bs.countP isWork ≤ 3 * s.acceptors.length + s.m_socks.length + 2 ∧
      t.handed.length ≤ s.handed.length + s.acceptors.length ∧
      (Down t ∨ ∃ a : Act ℕ ℕ, Due t a) := by
  have horderly : Transition.StepsMeet next Orderly (new 120000) (beforeStop ++ [.stop]) := by
    decide
  refine down_of_stop horderly (by decide) (fun b hb => ?_) (by decide)
  simp only [List.mem_cons, List.not_mem_nil, or_false] at hb
  rcases hb with rfl | rfl | rfl | rfl | rfl | rfl | rfl | rfl | rfl <;> trivial

end TcpServer

end Muhui
