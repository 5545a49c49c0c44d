/-
  A fiber that makes hooked calls one after another.

  Each call goes through `do_io` in `hook.cc` with a descriptor, an event and a timeout of its own.
  A call that has to wait arms a timer, registers itself with `addEvent` and yields; when it is
  resumed it cancels the timer, and it goes back to `retry` unless the timeout has come.  All rounds
  of a call share one `tinfo`, and the callback of a timer may run late: when the call is in a later
  round, or when it has returned and the fiber is in another call.

  Around the fiber run its `IOManager` and the `TimerManager` with any number of threads.  The other
  threads do as they like, with one restriction that the code imposes: `addEvent` registers the
  fiber that calls it, so nobody registers this fiber but itself.  A callback that gets as far as
  `cancelEvent` is from then on one of these threads.

  `log` records the successful calls of `addEvent` by `do_io`, and the tasks for the fiber that the
  `IOManager` hands to the scheduler.
-/
import Muhui.Hook.Wait

namespace Muhui

open ConditionTimer

/-- The fiber, and the scheduler of its `IOManager`. -/
structure HookedFiber where
  fiber : ℕ
  scheduler : ℕ

/-- The arguments of `do_io` that matter here; the timeout is `none` for `(uint64_t)-1`. -/
structure HookedCall where
  fd : ℕ
  event : Event
  timeout : Option ℕ

namespace HookedFiber

/-- What the lambda of `do_io` holds: it is the fiber's `n`-th call, on this descriptor and
event. -/
structure Condition where
  n : ℕ
  fd : ℕ
  event : Event
  deriving DecidableEq

/-- Where the fiber is; `timer` is the timer of the current round. -/
inductive Pc (P : Type*)
  /-- Not in `do_io`. -/
  | outside
  | calling (c : HookedCall)
  /-- Before `addConditionTimer`, if the call has a timeout. -/
  | arming (c : HookedCall)
  /-- Before `addEvent`. -/
  | adding (c : HookedCall) (timer : Option P)
  /-- In `addEvent`, on thread `t`. -/
  | registering (c : HookedCall) (timer : Option P) (t : ℕ)
  /-- `addEvent` has failed; before `timer->cancel()`. -/
  | failed (timer : Option P)
  /-- `addEvent` has succeeded; before `YieldToHold`. -/
  | added (c : HookedCall) (timer : Option P)
  | parked (c : HookedCall) (timer : Option P)
  /-- Resumed; before `timer->cancel()`. -/
  | woken (c : HookedCall) (timer : Option P)
  /-- Before the test of `tinfo->cancelled`. -/
  | checking (c : HookedCall)

/-- What happens to the waits of the fiber. -/
inductive WaitEvent
  /-- `addEvent` has registered the fiber. -/
  | added
  /-- `triggerEvent` has handed the fiber to the scheduler. -/
  | enqueued
  deriving DecidableEq

structure System (P : Type*) where
  timers : TimerManager.System P (Callback Condition)
  io : IOManager.System
  pc : Pc P
  /-- How many calls of `do_io` have begun. -/
  calls : ℕ
  /-- `tinfo->cancelled` of the current call. -/
  cancelled : Bool
  /-- Where the callbacks are; one in `cancelEvent` is like any other thread. -/
  callback : P → CallbackPc Empty
  log : List WaitEvent

inductive Step (P : Type*)
  /-- The fiber calls `do_io`. -/
  | enter (c : HookedCall)
  /-- The system call returns. -/
  | call (r : Outcome)
  /-- `addConditionTimer` at clock reading `now`; the timer is at the fresh address `p`. -/
  | arm (p : P) (now : ℕ)
  /-- There is no timeout. -/
  | noTimeout
  /-- `addEvent` looks its context up, on thread `t`. -/
  | look (t : ℕ)
  /-- `addEvent` resizes the table. -/
  | grow
  /-- `addEvent` runs under the mutex of the context. -/
  | register (fails : Bool)
  /-- `YieldToHold` -/
  | park
  /-- A worker takes the task and resumes the fiber. -/
  | wake
  /-- `if(timer) timer->cancel()` -/
  | disarm
  /-- The test of `tinfo->cancelled`. -/
  | check
  /-- A step of the `TimerManager` that somebody else takes. -/
  | timer (a : TimerManager.Step P (Callback Condition))
  /-- The callback of `p` locks `winfo` and tests `cancelled`.  Whether one of an earlier call
  still finds its `tinfo` and finds it not cancelled is up to the callbacks of that call
  (`passes`). -/
  | test (p : P) (passes : Bool)
  /-- It sets `cancelled`. -/
  | set (p : P)
  /-- It calls `cancelEvent` on thread `t`. -/
  | cancel (p : P) (t : ℕ)
  /-- A step of the `IOManager` that another thread takes. -/
  | other (a : IOManager.Step)

variable (h : HookedFiber)

/-- The call `iom->addEvent(fd, event)`. -/
def add (c : HookedCall) : IOManager.Call := .addEvent c.event none h.scheduler h.fiber

/-- The task that resumes the fiber. -/
def resume : Task := ⟨h.scheduler, some h.fiber, none⟩

/-- The tasks in the queue that resume the fiber. -/
def resumptions (io : IOManager) : ℕ := io.scheduled.countP fun task => task.fiber = some h.fiber

/-- The call registers the fiber. -/
def registers : IOManager.Call → Bool
  | .addEvent _ none _ fiber => fiber = h.fiber
  | _ => false

/-- The thread on which `do_io` is in `addEvent`. -/
def Pc.thread {P : Type*} : Pc P → Option ℕ
  | registering _ _ t => some t
  | _ => none

/-- What other threads do. -/
def Foreign {P : Type*} (pc : Pc P) (a : IOManager.Step) : Bool :=
  (a.thread.isNone || a.thread ≠ pc.thread) &&
    match a with
    | .call _ _ c => !h.registers c
    | _ => true

variable {P : Type*} [LinearOrder P]

namespace System

def init (mem : P → Timer (Callback Condition)) (now : ℕ) : System P where
  timers := .init mem now
  io := .init
  pc := .outside
  calls := 0
  cancelled := false
  callback _ := .armed
  log := []

variable (s : System P)

/-- The `IOManager` has taken a step. -/
def setIo (io : IOManager.System) : System P :=
  { s with
    io := io
    log := s.log ++ List.replicate (h.resumptions io.io - h.resumptions s.io.io) .enqueued }

/-- The `tinfo` of the `n`-th call is the one `do_io` holds. -/
def isCurrent (n : ℕ) : Bool :=
  match s.pc with
  | .outside => false
  | _ => n = s.calls

/-- `if(timer) timer->cancel()` -/
def disarm (timer : Option P) (pc : Pc P) : Option (System P) :=
  match timer with
  | none => some { s with pc := pc }
  | some p =>
    (s.timers.next (.cancel p)).map fun timers => { s with timers := timers, pc := pc }

/-- A step of a process that has not been stopped. -/
def step (a : Step P) : Option (System P) :=
  match a, s.pc with
  | .enter c, .outside =>
    some { s with pc := .calling c, calls := s.calls + 1, cancelled := false }
  | .call r, .calling c =>
    some { s with
      pc :=
        match r with
        | .done => .outside
        | .EINTR => .calling c
        | .EAGAIN => .arming c }
  | .arm p now, .arming c =>
    match c.timeout with
    | none => none
    | some ms =>
      (s.timers.next (.addTimer p ms (.condition ⟨s.calls, c.fd, c.event⟩) false now)).map
        fun timers => { s with timers := timers, pc := .adding c (some p) }
  | .noTimeout, .arming c =>
    if c.timeout = none then some { s with pc := .adding c none } else none
  | .look t, .adding c timer =>
    (s.io.next (.call t c.fd (h.add c))).map fun io =>
      { s.setIo h io with pc := .registering c timer t }
  | .grow, .registering _ _ t => (s.io.next (.grow t)).map (s.setIo h)
  | .register fails, .registering c timer t =>
    (s.io.next (.critical t fails)).map fun io =>
      if s.io.returns t fails then
        { s.setIo h io with pc := .added c timer, log := (s.setIo h io).log ++ [.added] }
      else { s.setIo h io with pc := .failed timer }
  | .park, .added c timer => some { s with pc := .parked c timer }
  | .wake, .parked c timer =>
    if h.resume ∈ s.io.io.scheduled then
      some { s with io := s.io.take h.resume, pc := .woken c timer }
    else none
  | .disarm, .failed timer => s.disarm timer .outside
  | .disarm, .woken c timer => s.disarm timer (.checking c)
  | .check, .checking c => some { s with pc := if s.cancelled then .outside else .calling c }
  | .timer a, _ =>
    if ForeignTimer s.timers.added a then
      (s.timers.next a).map fun timers =>
        { s with
          timers := timers
          callback := handOut (timers.log.drop s.timers.log.length) s.callback }
    else none
  | .test p passes, _ =>
    match s.callback p, s.timers.added p with
    | .queued, some (.condition ⟨n, _, _⟩) =>
      some { s with
        callback := Function.update s.callback p
          (if (if s.isCurrent n then !s.cancelled else passes) then .passed else .finished) }
    | _, _ => none
  | .set p, _ =>
    match s.callback p, s.timers.added p with
    | .passed, some (.condition ⟨n, _, _⟩) =>
      some { s with
        cancelled := s.cancelled || s.isCurrent n
        callback := Function.update s.callback p .cancelling }
    | _, _ => none
  | .cancel p t, _ =>
    match s.callback p, s.timers.added p with
    | .cancelling, some (.condition ⟨_, fd, event⟩) =>
      (s.io.next (.call t fd (.cancelEvent event))).map fun io =>
        { s.setIo h io with callback := Function.update s.callback p .finished }
    | _, _ => none
  | .other a, pc => if h.Foreign pc a then (s.io.next a).map (s.setIo h) else none
  | _, _ => none

def next (s : System P) (a : Step P) : Option (System P) :=
  if s.timers.crashed.isSome ∨ s.io.aborted.isSome then none else s.step h a

/-! ### What a step can do -/

/-- The steps, one constructor for each kind. -/
inductive Next (s : System P) : Step P → System P → Prop
  | entered (c : HookedCall) (hpc : s.pc = .outside) :
    Next s (.enter c) { s with pc := .calling c, calls := s.calls + 1, cancelled := false }
  | called (r : Outcome) (c : HookedCall) (pc : Pc P) (hpc : s.pc = .calling c)
      (hto : pc = .outside ∨ pc = .calling c ∨ pc = .arming c) :
    Next s (.call r) { s with pc := pc }
  | armed (p : P) (now ms : ℕ) (c : HookedCall)
      (timers : TimerManager.System P (Callback Condition)) (hpc : s.pc = .arming c)
      (hnext : s.timers.next (.addTimer p ms (.condition ⟨s.calls, c.fd, c.event⟩) false now) =
        some timers) :
    Next s (.arm p now) { s with timers := timers, pc := .adding c (some p) }
  | unarmed (c : HookedCall) (hpc : s.pc = .arming c) :
    Next s .noTimeout { s with pc := .adding c none }
  | looked (t : ℕ) (c : HookedCall) (timer : Option P) (io : IOManager.System)
      (hpc : s.pc = .adding c timer) (hnext : s.io.next (.call t c.fd (h.add c)) = some io) :
    Next s (.look t) { s.setIo h io with pc := .registering c timer t }
  | grown (t : ℕ) (c : HookedCall) (timer : Option P) (io : IOManager.System)
      (hpc : s.pc = .registering c timer t) (hnext : s.io.next (.grow t) = some io) :
    Next s .grow (s.setIo h io)
  | registered (t : ℕ) (fails : Bool) (c : HookedCall) (timer : Option P) (io : IOManager.System)
      (hpc : s.pc = .registering c timer t) (hnext : s.io.next (.critical t fails) = some io)
      (hreturns : s.io.returns t fails = true) :
    Next s (.register fails)
      { s.setIo h io with pc := .added c timer, log := (s.setIo h io).log ++ [.added] }
  | refused (t : ℕ) (fails : Bool) (c : HookedCall) (timer : Option P) (io : IOManager.System)
      (hpc : s.pc = .registering c timer t) (hnext : s.io.next (.critical t fails) = some io)
      (hreturns : s.io.returns t fails = false) :
    Next s (.register fails) { s.setIo h io with pc := .failed timer }
  | parked (c : HookedCall) (timer : Option P) (hpc : s.pc = .added c timer) :
    Next s .park { s with pc := .parked c timer }
  | woken (c : HookedCall) (timer : Option P) (hpc : s.pc = .parked c timer)
      (hmem : h.resume ∈ s.io.io.scheduled) :
    Next s .wake { s with io := s.io.take h.resume, pc := .woken c timer }
  | disarmed (timer : Option P) (pc : Pc P) (s' : System P)
      (hpc : (s.pc = .failed timer ∧ pc = .outside) ∨
        ∃ c, s.pc = .woken c timer ∧ pc = .checking c)
      (hnext : s.disarm timer pc = some s') : Next s .disarm s'
  | checked (c : HookedCall) (pc : Pc P) (hpc : s.pc = .checking c)
      (hto : pc = .outside ∨ pc = .calling c) : Next s .check { s with pc := pc }
  | foreign (a : TimerManager.Step P (Callback Condition))
      (timers : TimerManager.System P (Callback Condition))
      (ha : ForeignTimer s.timers.added a = true) (hnext : s.timers.next a = some timers) :
    Next s (.timer a) { s with
      timers := timers
      callback := handOut (timers.log.drop s.timers.log.length) s.callback }
  | tested (p : P) (passes : Bool) (pc : CallbackPc Empty) :
    Next s (.test p passes) { s with callback := Function.update s.callback p pc }
  | set (p : P) (cancelled : Bool) (pc : CallbackPc Empty) :
    Next s (.set p)
      { s with cancelled := cancelled, callback := Function.update s.callback p pc }
  | cancelled (p : P) (t fd : ℕ) (event : Event) (io : IOManager.System)
      (hnext : s.io.next (.call t fd (.cancelEvent event)) = some io) :
    Next s (.cancel p t)
      { s.setIo h io with callback := Function.update s.callback p .finished }
  | other (a : IOManager.Step) (io : IOManager.System) (ha : h.Foreign s.pc a = true)
      (hnext : s.io.next a = some io) : Next s (.other a) (s.setIo h io)

variable {h} {s}

/-- **Inversion of a step.** -/
theorem Next.of_next {s' : System P} {a : Step P} (hnext : s.next h a = some s') :
    s.io.aborted = none ∧ Next h s a s' := by
  unfold System.next at hnext
  split at hnext
  · cases hnext
  next hlive =>
  refine ⟨by simpa using (not_or.mp hlive).2, ?_⟩
  unfold System.step at hnext
  split at hnext
  next c hpc =>
    obtain rfl := Option.some.inj hnext
    exact .entered c hpc
  next r c hpc =>
    obtain rfl := Option.some.inj hnext
    refine .called r c _ hpc ?_
    cases r <;> simp
  next p now c hpc =>
    split at hnext
    · cases hnext
    · obtain ⟨timers, htimers, rfl⟩ := Option.map_eq_some_iff.mp hnext
      exact .armed p now _ c timers hpc htimers
  next c hpc =>
    split_ifs at hnext
    obtain rfl := Option.some.inj hnext
    exact .unarmed c hpc
  next t c timer hpc =>
    obtain ⟨io, hio, rfl⟩ := Option.map_eq_some_iff.mp hnext
    exact .looked t c timer io hpc hio
  next c timer t hpc =>
    obtain ⟨io, hio, rfl⟩ := Option.map_eq_some_iff.mp hnext
    exact .grown t c timer io hpc hio
  next fails c timer t hpc =>
    obtain ⟨io, hio, rfl⟩ := Option.map_eq_some_iff.mp hnext
    by_cases hreturns : s.io.returns t fails = true
    · rw [if_pos hreturns]
      exact .registered t fails c timer io hpc hio hreturns
    · rw [if_neg hreturns]
      exact .refused t fails c timer io hpc hio (Bool.eq_false_iff.mpr hreturns)
  next c timer hpc =>
    obtain rfl := Option.some.inj hnext
    exact .parked c timer hpc
  next c timer hpc =>
    split_ifs at hnext with hmem
    obtain rfl := Option.some.inj hnext
    exact .woken c timer hpc hmem
  next timer hpc => exact .disarmed timer _ s' (Or.inl ⟨hpc, rfl⟩) hnext
  next c timer hpc => exact .disarmed timer _ s' (Or.inr ⟨c, hpc, rfl⟩) hnext
  next c hpc =>
    obtain rfl := Option.some.inj hnext
    refine .checked c _ hpc ?_
    cases s.cancelled <;> simp
  next a =>
    split_ifs at hnext with ha
    obtain ⟨timers, htimers, rfl⟩ := Option.map_eq_some_iff.mp hnext
    exact .foreign a timers ha htimers
  next p passes =>
    split at hnext
    · obtain rfl := Option.some.inj hnext
      exact .tested p passes _
    · cases hnext
  next p =>
    split at hnext
    · obtain rfl := Option.some.inj hnext
      exact .set p _ _
    · cases hnext
  next p t =>
    split at hnext
    next n fd event _ _ =>
      obtain ⟨io, hio, rfl⟩ := Option.map_eq_some_iff.mp hnext
      exact .cancelled p t fd event io hio
    next => cases hnext
  next a =>
    split_ifs at hnext with ha
    obtain ⟨io, hio, rfl⟩ := Option.map_eq_some_iff.mp hnext
    exact .other a io ha hio
  next => cases hnext

end System

end HookedFiber

end Muhui
