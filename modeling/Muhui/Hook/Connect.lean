/-
  `connect_with_timeout` (`hook.cc`).

  One call on a socket, with the connection attempt in the kernel beside it.  A call that cannot
  connect at once arms a timer, registers itself for `WRITE` with `addEvent` and yields.  It is
  resumed by whoever takes the registration out: an event loop that has seen the descriptor
  writable, which it is once the attempt has ended; the callback of the timer, which sets
  `tinfo->cancelled` before it calls `cancelEvent`; or another fiber with `cancelEvent` or
  `cancelAll`.

  `SO_ERROR` is `0` for a connection that is established and for one that is still in progress.
  The call may therefore only ask for it after the attempt has ended, and `Settled` says of a step
  that this is so on the two ways that do not wait for it.
-/
import Mathlib.Data.Nat.Basic
import Muhui.Transition.Run
import Muhui.Hook.ConditionTimer
import Muhui.Descriptors.FdCtx

namespace Muhui

open Descriptors (FdCtx)
open ConditionTimer (CallbackPc)

/-- What the kernel knows of the connection of a socket. -/
inductive Connection
  | idle
  | inProgress
  | established
  | failed (error : {e : ℕ // e ≠ 0})
  deriving DecidableEq

namespace Connection

/-- `SO_ERROR` -/
def soError : Connection → ℕ
  | failed error => error
  | _ => 0

/-- Where the kernel may take a connection by itself. -/
def advances : Connection → Connection → Bool
  | inProgress, established | inProgress, failed _ | established, failed _ => true
  | _, _ => false

end Connection

/-- What `connect_f` returns: `0`, or `-1` with `EINPROGRESS` or with another error. -/
inductive ConnectResult
  | done
  | EINPROGRESS
  | fails
  deriving DecidableEq

/-- A call of `connect_with_timeout`. -/
structure ConnectCall where
  /-- `t_hook_enable` -/
  hook_enable : Bool
  /-- What `FdMgr` has for the descriptor. -/
  ctx : Option FdCtx
  /-- `none` for `(uint64_t)-1`. -/
  timeout_ms : Option ℕ
  deriving DecidableEq

namespace ConnectCall

/-- Where the call is. -/
inductive Pc
  | entered
  /-- Before `addConditionTimer`. -/
  | arming
  /-- Before `addEvent`. -/
  | adding
  /-- `addEvent` has failed; before `timer->cancel()`. -/
  | refused
  /-- In `YieldToHold`. -/
  | parked
  /-- Resumed; before `timer->cancel()`. -/
  | woken
  /-- Before the test of `tinfo->cancelled`. -/
  | checking
  /-- Before `getsockopt`. -/
  | querying
  /-- The call has returned `n`, when the connection was in this state. -/
  | returned (n : ℤ) (connection : Connection)
  deriving DecidableEq

/-- Who has taken the registration out. -/
inductive Source
  | writable
  | timeout
  /-- `cancelEvent` or `cancelAll` of another fiber. -/
  | cancel
  deriving DecidableEq

structure System where
  connection : Connection
  pc : Pc
  /-- `tinfo->cancelled` -/
  cancelled : Bool
  /-- There may be no timer, and it may have been cancelled. -/
  callback : Option (CallbackPc Empty)
  /-- The call is registered for `WRITE`. -/
  registered : Bool
  /-- Who has scheduled the fiber. -/
  source : Option Source
  deriving DecidableEq

inductive Step
  /-- `connect_f` returns, or is not called. -/
  | connect (r : ConnectResult)
  | arm
  /-- `addEvent` returns. -/
  | add (fails : Bool)
  /-- A worker resumes the fiber. -/
  | wake
  /-- `if(timer) timer->cancel()` -/
  | disarm
  | check
  /-- `getsockopt` returns. -/
  | query (fails : Bool)
  /-- The kernel moves on with the attempt. -/
  | advance (connection : Connection)
  /-- An event loop handles the report that the descriptor is writable. -/
  | report
  /-- `listExpiredCb` hands the callback of the timer out. -/
  | expire
  /-- The callback locks `winfo` and tests `cancelled`. -/
  | test
  /-- It sets `cancelled`. -/
  | set
  /-- It calls `cancelEvent`. -/
  | cancelEvent
  /-- Another fiber calls `cancelEvent` or `cancelAll`. -/
  | cancelAll
  deriving DecidableEq

namespace System

/-- Before the call, whatever has happened to the socket until then. -/
def init (connection : Connection) : System :=
  { connection := connection, pc := .entered, cancelled := false, callback := none
    registered := false, source := none }

/-- The call returns. -/
def ret (s : System) (n : ℤ) : System := { s with pc := .returned n s.connection }

/-- What `connect_f` does, when its result is what the call returns. -/
def connectOnly (s : System) : ConnectResult → System
  | .done => { s with connection := .established }.ret 0
  | .EINPROGRESS => { s with connection := .inProgress }.ret (-1)
  | .fails => s.ret (-1)

/-- `triggerEvent` on the registration, if it is there. -/
def trigger (s : System) (source : Source) : System :=
  if s.registered then { s with registered := false, source := some source } else s

def isReturned (s : System) : Bool :=
  match s.pc with
  | .returned _ _ => true
  | _ => false

/-- The first part of the call, through `connect_f`. -/
def connect (c : ConnectCall) (s : System) (r : ConnectResult) : System :=
  if c.hook_enable = false then s.connectOnly r
  else
    match c.ctx with
    | none => s.ret (-1)
    | some ctx =>
      if ctx.m_isClosed then s.ret (-1)
      else if ctx.m_isSocket = false then s.connectOnly r
      else if ctx.m_userNonblock then s.connectOnly r
      else
        match r with
        | .done => s.connectOnly .done
        | .EINPROGRESS => { s with connection := .inProgress, pc := .arming }
        | .fails => s.connectOnly .fails

/-- The last part of the call: `getsockopt` and the test of the error. -/
def query (s : System) (fails : Bool) : System :=
  if fails then s.ret (-1) else if s.connection.soError = 0 then s.ret 0 else s.ret (-1)

def next (c : ConnectCall) (s : System) (a : Step) : Option System :=
  match a with
  | .connect r => if s.pc = .entered then some (s.connect c r) else none
  | .arm =>
    if s.pc = .arming then
      some { s with pc := .adding, callback := if c.timeout_ms.isSome then some .armed else none }
    else none
  | .add fails =>
    if s.pc = .adding then
      some
        (if fails then { s with pc := .refused } else { s with pc := .parked, registered := true })
    else none
  | .wake => if s.pc = .parked ∧ s.source.isSome then some { s with pc := .woken } else none
  | .disarm =>
    let callback := if s.callback = some .armed then none else s.callback
    if s.pc = .refused then some { s with pc := .querying, callback := callback }
    else if s.pc = .woken then some { s with pc := .checking, callback := callback }
    else none
  | .check =>
    if s.pc = .checking then some (if s.cancelled then s.ret (-1) else { s with pc := .querying })
    else none
  | .query fails => if s.pc = .querying then some (s.query fails) else none
  | .advance connection =>
    if s.connection.advances connection then some { s with connection := connection } else none
  | .report =>
    -- nothing is reported as long as the attempt is under way
    if s.registered ∧ s.connection ≠ .inProgress then some (s.trigger .writable) else none
  | .expire => if s.callback = some .armed then some { s with callback := some .queued } else none
  | .test =>
    if s.callback = some .queued then
      some { s with callback := some (if s.isReturned || s.cancelled then .finished else .passed) }
    else none
  | .set =>
    if s.callback = some .passed then
      some { s with callback := some .cancelling, cancelled := true }
    else none
  | .cancelEvent =>
    if s.callback = some .cancelling then
      some { s.trigger .timeout with callback := some .finished }
    else none
  | .cancelAll => some (s.trigger .cancel)

/-- The call has not returned, or it has returned `0` for an established connection, or `-1`. -/
def Truthful (s : System) : Prop :=
  ∀ n connection, s.pc = .returned n connection → (n = 0 ∧ connection = .established) ∨ n = -1

/-- A call that did not wait until the descriptor was writable, because `addEvent` failed or
because another fiber cancelled the event, asks for the error when the attempt has ended. -/
def Settled (s : System) : Step → Prop
  | .query false => s.source ≠ some .writable → s.connection ≠ .inProgress
  | _ => True

instance (s : System) (a : Step) : Decidable (s.Settled a) := by
  unfold Settled
  split <;> infer_instance

/-! ### The invariant -/

structure Inv (s : System) : Prop where
  /-- Nobody has scheduled a fiber that is registered or has not been. -/
  registered : s.registered = true → s.pc = .parked ∧ s.source = none
  unscheduled : s.pc = .entered ∨ s.pc = .arming ∨ s.pc = .adding ∨ s.pc = .refused →
    s.source = none
  writable : s.source = some .writable → s.connection ≠ .inProgress
  cancelling : s.callback = some .cancelling → s.cancelled = true
  timeout : s.source = some .timeout → s.cancelled = true
  querying : s.pc = .querying → s.source ≠ some .timeout ∧ s.connection ≠ .idle
  waiting : s.pc = .arming ∨ s.pc = .adding ∨ s.pc = .refused ∨ s.pc = .parked ∨ s.pc = .woken ∨
    s.pc = .checking → s.connection ≠ .idle
  truthful : s.Truthful

theorem inv_init (connection : Connection) : (init connection).Inv := by
  constructor <;> simp [init, Truthful]

variable {c : ConnectCall} {s s' : System}

theorem truthful_of_ne_returned (hpc : ∀ n connection, s.pc ≠ .returned n connection) :
    s.Truthful := fun n connection h => absurd h (hpc n connection)

/-- Taking the registration out. -/
theorem Inv.trigger (h : s.Inv) (source : Source)
    (hwritable : source = .writable → s.connection ≠ .inProgress)
    (htimeout : source = .timeout → s.cancelled = true) : (s.trigger source).Inv := by
  unfold System.trigger
  split_ifs with hreg
  · obtain ⟨hpc, -⟩ := h.registered hreg
    exact
      { registered := by simp
        unscheduled := by simp [hpc]
        writable := fun heq => hwritable (Option.some.inj heq)
        cancelling := h.cancelling
        timeout := fun heq => htimeout (Option.some.inj heq)
        querying := by simp [hpc]
        waiting := h.waiting
        truthful := truthful_of_ne_returned (by simp [hpc]) }
  · exact h

/-- Returning what is true of the connection. -/
theorem Inv.ret (h : s.Inv) (hpc : s.pc ≠ .parked) {n : ℤ}
    (hn : (n = 0 ∧ s.connection = .established) ∨ n = -1) : (s.ret n).Inv where
  registered hreg := absurd (h.registered hreg).1 hpc
  unscheduled := by simp [System.ret]
  writable := h.writable
  cancelling := h.cancelling
  timeout := h.timeout
  querying := by simp [System.ret]
  waiting := by simp [System.ret]
  truthful := by
    rintro n' connection heq
    obtain ⟨rfl, rfl⟩ := Pc.returned.inj heq
    exact hn

/-- The state of the kernel may change as long as nobody has seen the descriptor writable. -/
theorem Inv.setConnection (h : s.Inv) (connection : Connection) (hidle : connection ≠ .idle)
    (hprogress : s.source = none ∨ connection ≠ .inProgress) :
    Inv { s with connection := connection } where
  registered := h.registered
  unscheduled := h.unscheduled
  writable heq := by
    rcases hprogress with hnone | hne
    · rw [show s.source = some .writable from heq] at hnone
      cases hnone
    · exact hne
  cancelling := h.cancelling
  timeout := h.timeout
  querying hpc := ⟨(h.querying hpc).1, hidle⟩
  waiting _ := hidle
  truthful := h.truthful

theorem Inv.connectOnly (h : s.Inv) (hpc : s.pc = .entered) (r : ConnectResult) :
    (s.connectOnly r).Inv := by
  have hnone := h.unscheduled (Or.inl hpc)
  cases r with
  | done => exact (h.setConnection _ (by decide) (Or.inl hnone)).ret (by simp [hpc]) (by simp)
  | EINPROGRESS =>
    exact (h.setConnection _ (by decide) (Or.inl hnone)).ret (by simp [hpc]) (Or.inr rfl)
  | fails => exact h.ret (by simp [hpc]) (Or.inr rfl)

/-- A change of place that is none of those that the invariant speaks of in particular. -/
theorem Inv.goto (h : s.Inv) (pc : Pc) (hreg : s.registered = false)
    (hunscheduled : pc = .arming ∨ pc = .adding ∨ pc = .refused → s.source = none)
    (hquerying : pc = .querying → s.source ≠ some .timeout)
    (hidle : s.connection ≠ .idle) (hpc : pc ≠ .entered)
    (hreturned : ∀ n connection, pc ≠ .returned n connection) : Inv { s with pc := pc } where
  registered heq := by
    rw [hreg] at heq
    cases heq
  unscheduled heq := hunscheduled (heq.resolve_left hpc)
  writable := h.writable
  cancelling := h.cancelling
  timeout := h.timeout
  querying heq := ⟨hquerying heq, hidle⟩
  waiting _ := hidle
  truthful := truthful_of_ne_returned hreturned

/-- A step of the timer or of its callback. -/
theorem Inv.setCallback (h : s.Inv) {callback : Option (CallbackPc Empty)} {cancelled : Bool}
    (hkeep : s.cancelled = true → cancelled = true)
    (hcancelling : callback = some .cancelling → cancelled = true) :
    Inv { s with callback := callback, cancelled := cancelled } :=
  ⟨h.registered, h.unscheduled, h.writable, hcancelling, fun heq => hkeep (h.timeout heq),
    h.querying, h.waiting, h.truthful⟩

theorem Inv.registered_eq_false (h : s.Inv) (hpc : s.pc ≠ .parked) : s.registered = false :=
  Bool.eq_false_iff.mpr fun hreg => hpc (h.registered hreg).1

theorem Inv.connect (h : s.Inv) (hpc : s.pc = .entered) (r : ConnectResult) :
    (s.connect c r).Inv := by
  have hreg := h.registered_eq_false (by simp [hpc])
  have hnone := h.unscheduled (Or.inl hpc)
  unfold System.connect
  split_ifs
  · exact h.connectOnly hpc r
  split
  · exact h.ret (by simp [hpc]) (Or.inr rfl)
  split_ifs
  · exact h.ret (by simp [hpc]) (Or.inr rfl)
  · exact h.connectOnly hpc r
  · exact h.connectOnly hpc r
  · cases r with
    | done => exact h.connectOnly hpc .done
    | fails => exact h.connectOnly hpc .fails
    | EINPROGRESS =>
      have hset := h.setConnection .inProgress (by decide) (Or.inl hnone)
      exact hset.goto _ hreg (fun _ => hnone) (by simp) (by simp) (by simp) (by simp)

/-- **The query**, when it is made in time. -/
theorem Inv.query (h : s.Inv) (hpc : s.pc = .querying) {fails : Bool}
    (hsettled : s.Settled (.query fails)) : (s.query fails).Inv := by
  have hne : s.pc ≠ .parked := by simp [hpc]
  unfold System.query
  split_ifs with hfails herror
  · exact h.ret hne (Or.inr rfl)
  · rw [Bool.not_eq_true] at hfails
    subst hfails
    -- neither idle nor in progress nor failed
    have hprogress : s.connection ≠ .inProgress := by
      by_cases hsource : s.source = some .writable
      · exact h.writable hsource
      · exact hsettled hsource
    have hidle := (h.querying hpc).2
    refine h.ret hne (Or.inl ⟨rfl, ?_⟩)
    cases hconnection : s.connection with
    | idle => exact absurd hconnection hidle
    | inProgress => exact absurd hconnection hprogress
    | established => rfl
    | failed error =>
      rw [hconnection] at herror
      exact absurd herror error.property
  · exact h.ret hne (Or.inr rfl)

/-- The registration of a fiber that nobody has scheduled yet. -/
theorem Inv.register (h : s.Inv) (hpc : s.pc = .adding) :
    Inv { s with pc := .parked, registered := true } where
  registered _ := ⟨rfl, h.unscheduled (by simp [hpc])⟩
  unscheduled := by simp
  writable := h.writable
  cancelling := h.cancelling
  timeout := h.timeout
  querying := by simp
  waiting _ := h.waiting (by simp [hpc])
  truthful := truthful_of_ne_returned (by simp)

/-- Whoever has scheduled the fiber has taken its registration out. -/
theorem Inv.registered_eq_false_of_isSome (h : s.Inv) (hsome : s.source.isSome) :
    s.registered = false := by
  rw [Bool.eq_false_iff]
  intro hreg
  rw [(h.registered hreg).2] at hsome
  cases hsome

/-- Cancelling the timer stops its callback when that has not been queued. -/
theorem Inv.disarm (h : s.Inv) :
    Inv { s with callback := if s.callback = some .armed then none else s.callback } := by
  refine h.setCallback id fun heq => h.cancelling ?_
  split_ifs at heq with harmed
  exact heq

/-- A change of place before the fiber is registered. -/
theorem Inv.goto_unscheduled (h : s.Inv) (pc : Pc)
    (hbefore : s.pc = .arming ∨ s.pc = .adding ∨ s.pc = .refused)
    (hafter : pc = .adding ∨ pc = .refused ∨ pc = .querying) : Inv { s with pc := pc } := by
  have hnone := h.unscheduled (Or.inr hbefore)
  have hidle := h.waiting (by rcases hbefore with hpc | hpc | hpc <;> simp [hpc])
  have hreg : s.registered = false :=
    h.registered_eq_false (by rcases hbefore with hpc | hpc | hpc <;> simp [hpc])
  refine h.goto pc hreg (fun _ => hnone) (by simp [hnone]) hidle ?_ ?_
  · rcases hafter with rfl | rfl | rfl <;> simp
  · rcases hafter with rfl | rfl | rfl <;> simp

/-- **Step lemma.** -/
theorem Inv.next (h : s.Inv) {a : Step} (hsettled : s.Settled a) (hnext : s.next c a = some s') :
    s'.Inv := by
  cases a with
  | connect r =>
    simp only [System.next] at hnext
    split_ifs at hnext with hpc
    obtain rfl := Option.some.inj hnext
    exact h.connect hpc r
  | arm =>
    simp only [System.next] at hnext
    split_ifs at hnext with hpc
    all_goals
      obtain rfl := Option.some.inj hnext
      have hgoto := h.goto_unscheduled .adding (Or.inl hpc) (Or.inl rfl)
      exact hgoto.setCallback id (by simp)
  | add fails =>
    simp only [System.next] at hnext
    split_ifs at hnext with hpc hfails
    · obtain rfl := Option.some.inj hnext
      exact h.goto_unscheduled .refused (Or.inr (Or.inl hpc)) (Or.inr (Or.inl rfl))
    · obtain rfl := Option.some.inj hnext
      exact h.register hpc
  | wake =>
    simp only [System.next] at hnext
    split_ifs at hnext with hpc
    obtain rfl := Option.some.inj hnext
    obtain ⟨hpc, hsome⟩ := hpc
    exact h.goto _ (h.registered_eq_false_of_isSome hsome) (by simp) (by simp)
      (h.waiting (by simp [hpc])) (by simp) (by simp)
  | disarm =>
    simp only [System.next] at hnext
    by_cases hrefused : s.pc = .refused
    · rw [if_pos hrefused] at hnext
      obtain rfl := Option.some.inj hnext
      have hgoto := h.goto_unscheduled .querying (Or.inr (Or.inr hrefused)) (Or.inr (Or.inr rfl))
      exact hgoto.disarm
    · rw [if_neg hrefused] at hnext
      by_cases hwoken : s.pc = .woken
      · rw [if_pos hwoken] at hnext
        obtain rfl := Option.some.inj hnext
        have hgoto := h.goto .checking (h.registered_eq_false (by simp [hwoken]))
          (by simp) (by simp) (h.waiting (by simp [hwoken])) (by simp) (by simp)
        exact hgoto.disarm
      · rw [if_neg hwoken] at hnext
        cases hnext
  | check =>
    simp only [System.next] at hnext
    split_ifs at hnext with hpc hcancelled
    · obtain rfl := Option.some.inj hnext
      exact h.ret (by simp [hpc]) (Or.inr rfl)
    · obtain rfl := Option.some.inj hnext
      exact h.goto _ (h.registered_eq_false (by simp [hpc])) (by simp)
        (fun _ heq => hcancelled (h.timeout heq)) (h.waiting (by simp [hpc])) (by simp) (by simp)
  | query fails =>
    simp only [System.next] at hnext
    split_ifs at hnext with hpc
    obtain rfl := Option.some.inj hnext
    exact h.query hpc hsettled
  | advance connection =>
    simp only [System.next] at hnext
    split_ifs at hnext with hadvances
    obtain rfl := Option.some.inj hnext
    have hended : connection ≠ .idle ∧ connection ≠ .inProgress := by
      constructor
      all_goals
        rintro rfl
        cases hconnection : s.connection <;> simp [hconnection, Connection.advances] at hadvances
    exact h.setConnection _ hended.1 (Or.inr hended.2)
  | report =>
    simp only [System.next] at hnext
    split_ifs at hnext with hreport
    obtain rfl := Option.some.inj hnext
    exact h.trigger _ (fun _ => hreport.2) (by simp)
  | expire =>
    simp only [System.next] at hnext
    split_ifs at hnext
    obtain rfl := Option.some.inj hnext
    exact h.setCallback id (by simp)
  | test =>
    simp only [System.next] at hnext
    split_ifs at hnext
    all_goals
      obtain rfl := Option.some.inj hnext
      exact h.setCallback id (by simp)
  | set =>
    simp only [System.next] at hnext
    split_ifs at hnext
    obtain rfl := Option.some.inj hnext
    exact h.setCallback (fun _ => rfl) (fun _ => rfl)
  | cancelEvent =>
    simp only [System.next] at hnext
    split_ifs at hnext with hcancelling
    obtain rfl := Option.some.inj hnext
    have htrigger := h.trigger .timeout (by simp) fun _ => h.cancelling hcancelling
    exact htrigger.setCallback id (by simp)
  | cancelAll =>
    obtain rfl := Option.some.inj hnext
    exact h.trigger _ (by simp) (by simp)

/-! ### When the call says the truth -/

/-- The call returns once. -/
theorem pc_next_of_returned {a : Step} {n : ℤ} {connection : Connection}
    (hpc : s.pc = .returned n connection) (hnext : s.next c a = some s') :
    s'.pc = .returned n connection := by
  have htrigger : ∀ source, (s.trigger source).pc = s.pc := by
    intro source
    unfold System.trigger
    split_ifs <;> rfl
  cases a with
  | connect | arm | add | wake | disarm | check | query =>
    simp [System.next, hpc] at hnext
  | advance | report | expire | test | set | cancelEvent =>
    simp only [System.next] at hnext
    split_ifs at hnext
    all_goals
      obtain rfl := Option.some.inj hnext
      simp only [htrigger]
      exact hpc
  | cancelAll =>
    obtain rfl := Option.some.inj hnext
    rw [htrigger, hpc]

/-- A query that comes too early is answered as if the connection were established. -/
theorem not_truthful_of_not_settled {a : Step} (hsettled : ¬s.Settled a)
    (hnext : s.next c a = some s') : ¬s'.Truthful := by
  cases a with
  | query fails =>
    cases fails with
    | true => exact absurd trivial hsettled
    | false =>
      simp only [Settled, Classical.not_imp, not_not] at hsettled
      simp only [System.next] at hnext
      split_ifs at hnext with hpc
      obtain rfl := Option.some.inj hnext
      intro htruthful
      have hquery : (s.query false).pc = .returned 0 .inProgress := by
        simp [System.query, hsettled.2, Connection.soError, System.ret]
      simpa using htruthful 0 .inProgress hquery
  | connect | arm | add | wake | disarm | check | advance | report | expire | test | set
  | cancelEvent | cancelAll => exact absurd trivial hsettled

/-- **When `connect_with_timeout` reports success only for an established connection**: when it does
not ask for the error of an attempt that is in progress after `addEvent` has failed or another fiber
has cancelled the event. -/
theorem truthful_iff_settled {connection : Connection} {as : List Step}
    (hrun : Transition.run (System.next c) (init connection) as = some s) :
    s.Truthful ↔ Transition.StepsMeet (System.next c) Settled (init connection) as := by
  refine Transition.good_iff_stepsMeet Inv Truthful (fun _ h => h.truthful)
    (fun _ _ _ h hok hnext => h.next hok hnext)
    (fun _ _ _ _ hok hnext => not_truthful_of_not_settled hok hnext) ?_ (inv_init connection) hrun
  intro s a s' hs hnext hs'
  apply hs
  intro n connection hpc
  exact hs' n connection (pc_next_of_returned hpc hnext)

/-- A call on a socket that the hooked functions look after. -/
def hookedSocket : ConnectCall := ⟨true, some (.init (some true)), some 5000⟩

/-- A call that waits until the descriptor is writable, while its timer expires. -/
theorem truthful_iff_settled_writable :
    ∃ s, Transition.run (System.next hookedSocket) (init .idle)
        [.connect .EINPROGRESS, .arm, .add false, .expire, .advance .established, .report, .wake,
          .disarm, .check, .query false, .test] = some s ∧ s.pc = .returned 0 .established ∧
      (s.Truthful ↔ Transition.StepsMeet (System.next hookedSocket)
        Settled (init .idle) [.connect .EINPROGRESS, .arm, .add false, .expire,
          .advance .established, .report, .wake, .disarm, .check, .query false, .test]) :=
  ⟨_, rfl, rfl, truthful_iff_settled rfl⟩

/-- A call whose event `cancelAll` of another fiber takes out, and one whose `addEvent` fails,
return `0` while the attempt is in progress. -/
theorem not_truthful_of_cancelAll_or_refused :
    ∃ s s', Transition.run (System.next hookedSocket) (init .idle)
        [.connect .EINPROGRESS, .arm, .add false, .cancelAll, .wake, .disarm, .check,
          .query false] = some s ∧ s.pc = .returned 0 .inProgress ∧ ¬s.Truthful ∧
      Transition.run (System.next hookedSocket) (init .idle)
        [.connect .EINPROGRESS, .arm, .add true, .disarm, .query false] = some s' ∧
      s'.pc = .returned 0 .inProgress ∧ ¬s'.Truthful := by
  refine ⟨_, _, rfl, rfl, fun h => ?_, rfl, rfl, fun h => ?_⟩
  · simpa using h 0 .inProgress rfl
  · simpa using h 0 .inProgress rfl

end System

end ConnectCall

end Muhui
