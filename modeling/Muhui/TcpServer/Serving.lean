/-
  A `TcpServer` that serves.

  In every run the sockets in `m_socks` are different ones, each client that has connected waits,
  is held by a task, has been handed on or is lost, and what waits does so on an open socket
  (`Inv`).  That the tasks of `startAccept` accept on exactly the sockets of a server that is not
  stopped takes calls that come in their place (`serves_along_iff`).
-/
import Muhui.TcpServer.Server
import Mathlib.Data.List.Perm.Basic
import Mathlib.Algebra.Order.Group.Multiset
import Mathlib.Tactic.Abel

namespace Muhui

namespace TcpServer

variable {A C : Type*} {s t : TcpServer C}

/-! ### What every run keeps -/

/-- The sockets in `m_socks` are different ones, and they are open but for those that a task of
`stop` has come by in its loop. -/
structure Sockets (s : TcpServer C) : Prop where
  nodup : s.m_socks.Nodup
  lt_made : ∀ sock ∈ s.m_socks, sock < s.made
  shut_lt_made : ∀ sock ∈ s.shut, sock < s.made
  unshut : s.iterated = false → ∀ sock ∈ s.m_socks, sock ∉ s.shut

theorem any_set {l : List Closer} {i : ℕ} {c : Closer} (hi : l[i]? = some c) (k : ℕ) :
    (l.set i (.closing k)).any (· != .scheduled) = true := by
  obtain ⟨hlt, -⟩ := List.getElem?_eq_some_iff.mp hi
  exact List.any_eq_true.mpr ⟨_, List.mem_set hlt _, rfl⟩

theorem Sockets.bind {debug ok : Bool} {addrs : List (A × Answer)} {fails fails' : List A}
    (h : Sockets s) (hbind : s.bind debug addrs fails = some (ok, fails', t)) : Sockets t := by
  obtain ⟨-, -, socks, hmade, -, rfl⟩ := bind_eq hbind
  have hshut : ∀ sock ∈ s.shut, sock < s.made + addrs.length := by
    intro sock hsock
    have := h.shut_lt_made sock hsock
    omega
  cases ok with
  | false => exact ⟨List.nodup_nil, nofun, hshut, fun _ => nofun⟩
  | true =>
    refine ⟨?_, ?_, hshut, ?_⟩
    · refine List.nodup_append.mpr ⟨h.nodup, hmade.nodup, fun sock hsock sock' hsock' heq => ?_⟩
      have := h.lt_made sock hsock
      have := hmade.le sock' hsock'
      omega
    · intro sock hsock
      show sock < s.made + addrs.length
      rcases List.mem_append.mp hsock with hold | hnew
      · have := h.lt_made sock hold
        omega
      · exact hmade.lt sock hnew
    · intro hiterated sock hsock hmem
      rcases List.mem_append.mp hsock with hold | hnew
      · exact h.unshut hiterated sock hold hmem
      · have := hmade.le sock hnew
        have := h.shut_lt_made sock hmem
        omega

theorem Sockets.acts {a : Act A C} (h : Sockets s) (hacts : Acts s a t) : Sockets t := by
  cases hacts with
  | bind hbind _ => exact h.bind hbind
  | stops =>
    refine ⟨h.nodup, h.lt_made, h.shut_lt_made, fun hiterated => h.unshut ?_⟩
    simpa [iterated] using hiterated
  | begins hi =>
    refine ⟨h.nodup, h.lt_made, h.shut_lt_made, fun hiterated => ?_⟩
    exact absurd ((any_set hi 0).symm.trans hiterated) nofun
  | @closes i closed sock hi hsock =>
    refine ⟨h.nodup, h.lt_made, ?_, fun hiterated => ?_⟩
    · intro sock' hsock'
      rcases List.mem_cons.mp hsock' with rfl | hold
      · exact h.lt_made _ (List.mem_of_getElem? hsock)
      · exact h.shut_lt_made sock' hold
    · exact absurd ((any_set hi (closed + 1)).symm.trans hiterated) nofun
  | clears _ _ _ => exact ⟨List.nodup_nil, nofun, h.shut_lt_made, fun _ => nofun⟩
  | _ => exact ⟨h.nodup, h.lt_made, h.shut_lt_made, h.unshut⟩

/-- The client that a task holds between `accept` and the scheduling of `handleClient`. -/
def held (a : Acceptor C) : Option C :=
  match a.pc with
  | .accepted client => some client
  | _ => none

/-- Each client that has connected waits, is held by a task, was handed on or is lost, and only one
of these. -/
def Accounted (s : TcpServer C) : Prop :=
  (s.arrived : Multiset C) = (s.handed.map Prod.fst : List C) +
    (s.acceptors.filterMap held : List C) + (s.backlog.map Prod.snd : List C) + (s.lost : List C)

/-- Taking a task out of the list. -/
theorem held_eraseIdx {l : List (Acceptor C)} {i : ℕ} {a : Acceptor C} (ha : l[i]? = some a) :
    (l.filterMap held : Multiset C) =
      ((held a).toList : List C) + ((l.eraseIdx i).filterMap held : List C) := by
  obtain ⟨hlt, rfl⟩ := List.getElem?_eq_some_iff.mp ha
  rw [Multiset.coe_add, Multiset.coe_eq_coe]
  refine ((List.getElem_cons_eraseIdx_perm hlt).symm.filterMap held).trans ?_
  rw [List.filterMap_cons]
  cases held l[i] <;> rfl

/-- Moving a task on. -/
theorem held_set {l : List (Acceptor C)} {i : ℕ} {a : Acceptor C} (ha : l[i]? = some a)
    (b : Acceptor C) :
    ((l.set i b).filterMap held : Multiset C) =
      ((held b).toList : List C) + ((l.eraseIdx i).filterMap held : List C) := by
  obtain ⟨hlt, -⟩ := List.getElem?_eq_some_iff.mp ha
  rw [Multiset.coe_add, Multiset.coe_eq_coe]
  refine ((List.set_perm_cons_eraseIdx hlt b).filterMap held).trans ?_
  rw [List.filterMap_cons]
  cases held b <;> rfl

/-- Taking a connection out of the backlog. -/
theorem backlog_eraseIdx {l : List (ℕ × C)} {j sock : ℕ} {client : C}
    (hj : l[j]? = some (sock, client)) :
    (l.map Prod.snd : Multiset C) =
      ([client] : List C) + ((l.eraseIdx j).map Prod.snd : List C) := by
  obtain ⟨hlt, heq⟩ := List.getElem?_eq_some_iff.mp hj
  rw [Multiset.coe_add, Multiset.coe_eq_coe]
  refine ((List.getElem_cons_eraseIdx_perm hlt).symm.map Prod.snd).trans ?_
  rw [heq]
  rfl

theorem Accounted.acts {a : Act A C} (h : Accounted s) (hacts : Acts s a t) : Accounted t := by
  unfold Accounted at h ⊢
  cases hacts with
  | bind hbind _ =>
    obtain ⟨-, -, socks, -, -, rfl⟩ := bind_eq hbind
    exact h
  | starts _ =>
    have hnew : (s.m_socks.map fun sock => (⟨sock, .loop⟩ : Acceptor C)).filterMap held = [] := by
      simp [List.filterMap_map, held, Function.comp_def]
    rw [List.filterMap_append, hnew, List.append_nil]
    exact h
  | arrives _ =>
    simp only [List.map_append, List.map_cons, List.map_nil, ← Multiset.coe_add, h]
    abel
  | leaves ha hpc _ =>
    rw [held_eraseIdx ha] at h
    simpa [held, hpc] using h
  | enters ha hpc _ | fails ha hpc =>
    rw [held_eraseIdx ha] at h
    simp only [setPc]
    rw [held_set ha]
    simpa [held, hpc] using h
  | takes ha hpc hclient =>
    rw [held_eraseIdx ha, backlog_eraseIdx hclient] at h
    simp only [setPc]
    rw [held_set ha, h]
    simp only [held, hpc, Option.toList_none, Option.toList_some, Multiset.coe_nil, zero_add]
    abel
  | loses ha hpc hclient =>
    rw [held_eraseIdx ha, backlog_eraseIdx hclient] at h
    simp only [setPc, ← Multiset.coe_add]
    rw [held_set ha, h]
    simp only [held, hpc, Option.toList_none, Multiset.coe_nil, zero_add]
    abel
  | hands ha hpc =>
    rw [held_eraseIdx ha] at h
    simp only [setPc, List.map_append, List.map_cons, List.map_nil, ← Multiset.coe_add]
    rw [held_set ha, h]
    simp only [held, hpc, Option.toList_none, Option.toList_some, Multiset.coe_nil, zero_add]
    abel
  | _ => exact h

theorem Accounted.settle (h : Accounted s) : Accounted s.settle := by
  have hsplit : (s.backlog.map Prod.snd : Multiset C) =
      ((s.backlog.filter (s.isOpen ·.1)).map Prod.snd : List C) +
        ((s.backlog.filter (!s.isOpen ·.1)).map Prod.snd : List C) := by
    rw [Multiset.coe_add, Multiset.coe_eq_coe, ← List.map_append]
    exact (List.filter_append_perm _ _).symm.map Prod.snd
  unfold Accounted at h ⊢
  rw [hsplit] at h
  simp only [TcpServer.settle, ← Multiset.coe_add]
  rw [h]
  abel

/-- What waits, waits on an open socket. -/
theorem isOpen_of_mem_settle {c : ℕ × C} (hc : c ∈ s.settle.backlog) :
    s.settle.isOpen c.1 = true :=
  (List.mem_filter.mp hc).2

theorem next_eq_some {a : Act A C} (h : s.next a = some t) :
    s.undefined = false ∧ ∃ t', Acts s a t' ∧ t = t'.settle := by
  unfold next at h
  split_ifs at h with hundefined
  obtain ⟨t', ht', rfl⟩ := Option.map_eq_some_iff.mp h
  exact ⟨Bool.eq_false_iff.mpr hundefined, t', acts_of_act ht', rfl⟩

structure Inv (s : TcpServer C) : Prop where
  sockets : Sockets s
  accounted : Accounted s
  waiting : ∀ c ∈ s.backlog, s.isOpen c.1 = true

theorem inv_new (timeout : UInt64) : Inv (new timeout : TcpServer C) where
  sockets := ⟨List.nodup_nil, nofun, nofun, fun _ => nofun⟩
  accounted := rfl
  waiting := nofun

theorem Inv.next {a : Act A C} (h : Inv s) (hnext : s.next a = some t) : Inv t := by
  obtain ⟨-, t', hacts, rfl⟩ := next_eq_some hnext
  have hsockets : Sockets t' := h.sockets.acts hacts
  exact {
    sockets := ⟨hsockets.nodup, hsockets.lt_made, hsockets.shut_lt_made, hsockets.unshut⟩
    accounted := (h.accounted.acts hacts).settle
    waiting := fun _ => isOpen_of_mem_settle }

/-! ### Serving -/

/-- Nothing is undefined, and while the server is not stopped, one task accepts on each of its
sockets, the sockets are open, and nobody is about to close them. -/
def Serves (s : TcpServer C) : Prop :=
  s.undefined = false ∧ (s.m_isStop = false →
    s.closers = [] ∧ (s.acceptors.map Acceptor.sock).Perm s.m_socks ∧
      ∀ sock ∈ s.m_socks, s.isOpen sock = true)

/-- The server starts when nothing is left from before, it gets no socket and loses none while it
runs, and a call or a task that changes the vector finds no other one in it. -/
def InPlace (s : TcpServer C) : Act A C → Prop
  | .start => s.m_isStop = true → s.closers = [] ∧ s.acceptors = []
  | .bind debug addrs fails =>
    (debug = true → fails ++ failing addrs = [] → s.m_socks ≠ [] ∨ addrs ≠ []) ∧
      (s.m_isStop = false ∨ s.iterated = true →
        if fails ++ failing addrs = [] then addrs = [] else s.m_socks = [])
  | .close i =>
    ∀ closed, s.closers[i]? = some (.closing closed) → s.m_socks[closed]? = none →
      s.clashes i = false
  | _ => True

/-- A call of `bind` is in its place when it comes to an end, and leaves the vector as it is where
somebody relies on it. -/
theorem inPlace_bind_iff {debug : Bool} {addrs : List (A × Answer)} {fails : List A} :
    InPlace s (.bind debug addrs fails) ↔ ∃ r ∈ s.bind debug addrs fails,
      (s.m_isStop = false ∨ s.iterated = true → r.2.2.m_socks = s.m_socks) := by
  obtain ⟨socks, hloop, -, hlength⟩ := bindLoop_eq addrs fails s
  rw [InPlace, bind, hloop]
  by_cases hfails : fails ++ failing addrs = []
  · have hsocks : socks.length = addrs.length := by
      rwa [(List.append_eq_nil_iff.mp hfails).2] at hlength
    have hnil : socks = [] ↔ addrs = [] := by
      rw [← List.length_eq_zero_iff, hsocks, List.length_eq_zero_iff]
    simp only [hfails, List.isEmpty_nil, Bool.not_true, Bool.false_eq_true, if_false, if_true]
    by_cases hempty : debug = true ∧ s.m_socks = [] ∧ addrs = []
    · obtain ⟨rfl, hs, haddrs⟩ := hempty
      simp [hs, haddrs, hnil.mpr haddrs]
    · rw [if_neg (by simpa [hnil] using hempty)]
      simp only [Option.mem_some_iff, exists_eq_left', List.append_right_eq_self, hnil]
      refine and_iff_right fun hdebug _ => ?_
      by_contra hboth
      rw [not_or, not_not, not_not] at hboth
      exact hempty ⟨hdebug, hboth⟩
  · have hempty : (fails ++ failing addrs).isEmpty = false := by
      rwa [Bool.eq_false_iff, ne_eq, List.isEmpty_iff]
    simp only [hfails, hempty, Bool.not_false, if_true, if_false, Option.mem_some_iff,
      exists_eq_left', eq_comm (a := ([] : List ℕ))]
    exact and_iff_right fun _ => False.elim

/-- `next`, where an act that is not possible changes nothing. -/
def step (s : TcpServer C) (a : Act A C) : TcpServer C := (s.next a).getD s

theorem isOpen_iff {sock : ℕ} (hsock : sock ∈ s.m_socks) :
    s.isOpen sock = true ↔ sock ∉ s.shut := by
  simp [isOpen, hsock]

/-- With nobody about to close them, the sockets are open. -/
theorem serves_iff (h : Sockets s) :
    Serves s ↔ s.undefined = false ∧ (s.m_isStop = false →
      s.closers = [] ∧ (s.acceptors.map Acceptor.sock).Perm s.m_socks) := by
  refine and_congr_right fun _ => forall_congr' fun _ => ?_
  constructor
  · exact fun hserves => ⟨hserves.1, hserves.2.1⟩
  · intro ⟨hclosers, hperm⟩
    refine ⟨hclosers, hperm, fun sock hsock => (isOpen_iff hsock).mpr (h.unshut ?_ sock hsock)⟩
    rw [iterated, hclosers]
    rfl

theorem map_sock_set {l : List (Acceptor C)} {i : ℕ} {a : Acceptor C} (ha : l[i]? = some a)
    (pc : Pc C) : (l.set i ⟨a.sock, pc⟩).map Acceptor.sock = l.map Acceptor.sock := by
  obtain ⟨hlt, rfl⟩ := List.getElem?_eq_some_iff.mp ha
  have hlt' : i < (l.map Acceptor.sock).length := by rwa [List.length_map]
  have hsock : (l.map Acceptor.sock)[i] = l[i].sock := List.getElem_map _
  rw [List.map_set, ← hsock, List.set_getElem_self]

theorem Serves.acts {a : Act A C} (hsockets : Sockets s) (h : Serves s) (hplace : InPlace s a)
    (hacts : Acts s a t) : Serves t := by
  rw [serves_iff (hsockets.acts hacts)]
  rw [serves_iff hsockets] at h
  obtain ⟨hdefined, hserves⟩ := h
  cases hacts with
  | undefined hundefined =>
    obtain ⟨r, hr, hsame⟩ := inPlace_bind_iff.mp hplace
    rcases hundefined with hnone | ⟨hiterated, r', hr', hchanged⟩
    · rw [hnone] at hr
      cases hr
    · obtain rfl := Option.mem_unique hr hr'
      exact absurd (hsame (.inr hiterated)) hchanged
  | bind hbind _ =>
    obtain ⟨r, hr, hsame⟩ := inPlace_bind_iff.mp hplace
    obtain rfl := Option.mem_unique hr hbind
    obtain ⟨-, -, socks, -, -, rfl⟩ := bind_eq hbind
    refine ⟨hdefined, fun hrunning => ?_⟩
    rw [hsame (.inl hrunning)]
    exact hserves hrunning
  | starts hstop =>
    obtain ⟨hclosers, hacceptors⟩ := hplace hstop
    refine ⟨hdefined, fun _ => ⟨hclosers, ?_⟩⟩
    simp [hacceptors, Function.comp_def]
  | stops => exact ⟨hdefined, nofun⟩
  | leaves _ _ hstop => exact ⟨hdefined, fun hrunning => absurd (hstop.symm.trans hrunning) nofun⟩
  | enters ha _ _ | fails ha _ | takes ha _ _ | loses ha _ _ | hands ha _ =>
    refine ⟨hdefined, fun hrunning => ?_⟩
    simp only [setPc]
    rw [map_sock_set ha]
    exact hserves hrunning
  | begins hi | closes hi _ | clears hi _ _ =>
    refine ⟨hdefined, fun hrunning => ?_⟩
    rw [(hserves hrunning).1] at hi
    cases hi
  | clashes hi hend hclash =>
    rw [hplace _ hi hend] at hclash
    cases hclash
  | _ => exact ⟨hdefined, hserves⟩

theorem InPlace.of_acts {a : Act A C} (h : Serves s) (hacts : Acts s a t) (h' : Serves t) :
    InPlace s a := by
  cases hacts with
  | undefined _ => exact absurd h'.1 nofun
  | bind hbind hsame =>
    refine inPlace_bind_iff.mpr ⟨_, hbind, fun hwhen => ?_⟩
    rcases hwhen with hrunning | hiterated
    · obtain ⟨-, -, socks, -, -, rfl⟩ := bind_eq hbind
      have hperm := (h'.2 hrunning).2.1.symm.trans (h.2 hrunning).2.1
      -- as many sockets as before are the same sockets
      split_ifs at hperm ⊢
      · have hlength := hperm.length_eq
        rw [List.length_append] at hlength
        rw [List.length_eq_zero_iff.mp (by omega : socks.length = 0), List.append_nil]
      · exact hperm.nil_eq
    · exact hsame hiterated
  | goesOn hrunning => exact fun hstop => absurd (hstop.symm.trans hrunning) nofun
  | starts _ =>
    intro _
    obtain ⟨hclosers, hperm, -⟩ := h'.2 rfl
    have hlength : (s.acceptors ++ s.m_socks.map fun sock => (⟨sock, .loop⟩ : Acceptor C)).length =
        s.m_socks.length := by simpa using hperm.length_eq
    rw [List.length_append, List.length_map] at hlength
    exact ⟨hclosers, List.length_eq_zero_iff.mp (by omega)⟩
  | begins hi =>
    intro closed hclosing
    cases hi.symm.trans hclosing
  | closes hi hsock =>
    intro closed hclosing hend
    cases hi.symm.trans hclosing
    cases hsock.symm.trans hend
  | clashes _ _ _ => exact absurd h'.1 nofun
  | clears _ _ hclash => exact fun _ _ _ => hclash
  | _ => trivial

theorem serves_settle : Serves s.settle ↔ Serves s := Iff.rfl

theorem Inv.step (h : Inv s) (a : Act A C) : Inv (s.step a) := by
  rw [TcpServer.step]
  cases hnext : s.next a with
  | none => exact h
  | some t => exact h.next hnext

/-- A step that is not possible is in its place. -/
theorem InPlace.of_none {a : Act A C} (hdefined : s.undefined = false) (h : s.next a = none) :
    InPlace s a := by
  have hact : s.act a = none := by simpa [TcpServer.next, hdefined] using h
  cases a with
  | bind debug addrs fails =>
    cases hbind : s.bind debug addrs fails <;> simp [act, hbind] at hact
  | start => cases hact
  | close i =>
    intro closed hclosing
    simp [act, close, hclosing] at hact
  | _ => trivial

theorem serves_step_iff (h : Inv s) (hserves : Serves s) (a : Act A C) :
    Serves (s.step a) ↔ InPlace s a := by
  rw [step]
  cases hnext : s.next a with
  | none => exact iff_of_true hserves (.of_none hserves.1 hnext)
  | some t =>
    obtain ⟨-, t', hacts, rfl⟩ := next_eq_some hnext
    rw [Option.getD_some, serves_settle]
    exact ⟨fun ht' => .of_acts hserves hacts ht', fun hplace => hserves.acts h.sockets hplace hacts⟩

/-- **Serving.** Whatever the order of the calls and of the turns of the tasks: in all states of a
run nothing is undefined and the running server has its sockets open, a task on each and none about
to be closed, if and only if each call and each task came in its place. -/
theorem serves_along_iff (timeout : UInt64) (as : List (Act A C)) :
    (∀ pre, pre <+: as → Serves (pre.foldl step (new timeout))) ↔
      ∀ pre a, pre ++ [a] <+: as → InPlace (pre.foldl step (new timeout)) a :=
  Transition.along_iff Inv Serves (fun _ a h => h.step a) (fun _ a h hs => serves_step_iff h hs a)
    (inv_new timeout) ⟨rfl, nofun⟩ as

end TcpServer

end Muhui
