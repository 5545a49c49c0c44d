/-
  The wait of `do_io` in `hook.cc`.

  One hooked call on a socket with a finite timeout, from its `retry` label on: the system call,
  `addConditionTimer`, `addEvent`, `YieldToHold`, and after the resumption `Timer::cancel` and the
  test of `tinfo->cancelled`.  Around it run the `TimerManager`, whose other timers belong to
  others, the `IOManager` with its event loops, and the callbacks of the timers that earlier rounds
  of the call have armed, each on a worker of its own.  Every access to shared data is one step.

  `do_io` parks and is resumed in one step each; that its context is saved before it is resumed is
  a matter of the scheduler.
-/
import Muhui.IOManager.Bookkeeping
import Muhui.Hook.ConditionTimer

namespace Muhui

open ConditionTimer

/-- What a system call returns: `EINTR` and `EAGAIN` are the errors that `do_io` looks at, `done`
stands for everything else. -/
inductive Outcome
  | done
  | EINTR
  | EAGAIN
  deriving DecidableEq

/-- One call of `do_io`: its descriptor, event and timeout, and the fiber that makes it with its
scheduler. -/
structure DoIo where
  fd : ℕ
  event : Event
  timeout : ℕ
  fiber : ℕ
  scheduler : ℕ

namespace DoIo

/-- The call `iom->addEvent(fd, event)`. -/
def add (d : DoIo) : IOManager.Call := .addEvent d.event none d.scheduler d.fiber

/-- The task that resumes the fiber. -/
def resume (d : DoIo) : Task := ⟨d.scheduler, some d.fiber, none⟩

/-- Where `do_io` is; `timer` is the timer of the current round. -/
inductive Pc (P : Type*)
  | calling
  /-- Before `addConditionTimer`. -/
  | arming
  /-- Before `addEvent`. -/
  | adding (timer : P)
  /-- In `addEvent`, on thread `t`. -/
  | registering (timer : P) (t : ℕ)
  /-- `addEvent` has failed; before `timer->cancel()`. -/
  | failed (timer : P)
  /-- `addEvent` has succeeded; before `YieldToHold`. -/
  | added (timer : P)
  | parked (timer : P)
  /-- Resumed; before `timer->cancel()`. -/
  | woken (timer : P)
  /-- Before the test of `tinfo->cancelled`. -/
  | checking
  | returned

/-- `do_io` has returned; `tinfo` lives until then. -/
def Pc.isReturned {P : Type*} : Pc P → Bool
  | returned => true
  | _ => false

theorem Pc.eq_returned {P : Type*} {pc : Pc P} (h : pc.isReturned = true) : pc = .returned := by
  cases pc <;> first | rfl | cases h

structure System (P : Type*) where
  timers : TimerManager.System P (Callback Unit)
  io : IOManager.System
  pc : Pc P
  /-- `tinfo->cancelled` -/
  cancelled : Bool
  /-- Where the callbacks are; in `cancelEvent`, each on a thread. -/
  callback : P → CallbackPc ℕ

inductive Step (P : Type*)
  /-- The system call returns. -/
  | call (r : Outcome)
  /-- `addConditionTimer` at clock reading `now`; the timer is at the fresh address `p`. -/
  | arm (p : P) (now : ℕ)
  /-- `addEvent` looks its context up, on thread `t`. -/
  | enter (t : ℕ)
  /-- `addEvent` resizes the table. -/
  | grow
  /-- `addEvent` runs under the mutex of the context. -/
  | register (fails : Bool)
  /-- `YieldToHold` -/
  | park
  /-- A worker takes the task and resumes the fiber. -/
  | wake
  /-- `timer->cancel()` -/
  | disarm
  /-- The test of `tinfo->cancelled`. -/
  | check
  /-- A step of the `TimerManager` that somebody else takes. -/
  | timer (a : TimerManager.Step P (Callback Unit))
  /-- The callback of `p` locks `winfo` and tests `cancelled`. -/
  | test (p : P)
  /-- It sets `cancelled`. -/
  | set (p : P)
  /-- It looks the context up in `cancelEvent`, on thread `t`. -/
  | look (p : P) (t : ℕ)
  /-- It runs under the mutex of the context. -/
  | cancel (p : P) (fails : Bool)
  /-- `epoll_wait` returns in an event loop. -/
  | wait (t : ℕ) (ready : List (ℕ × Events × Bool))
  /-- An event loop handles its next record. -/
  | handle (t : ℕ) (fails : Bool)

variable {P : Type*} [LinearOrder P]

namespace System

/-- A step of a process that has not been stopped. -/
def step (d : DoIo) (s : System P) (a : Step P) : Option (System P) :=
  match a, s.pc with
  | .call r, .calling =>
    some { s with
      pc :=
        match r with
        | .done => .returned
        | .EINTR => .calling
        | .EAGAIN => .arming }
  | .arm p now, .arming =>
    (s.timers.next (.addTimer p d.timeout (.condition ()) false now)).map fun timers =>
      { s with timers := timers, pc := .adding p }
  | .enter t, .adding p =>
    (s.io.next (.call t d.fd d.add)).map fun io => { s with io := io, pc := .registering p t }
  | .grow, .registering _ t => (s.io.next (.grow t)).map fun io => { s with io := io }
  | .register fails, .registering p t =>
    (s.io.next (.critical t fails)).map fun io =>
      { s with io := io, pc := if s.io.returns t fails then .added p else .failed p }
  | .park, .added p => some { s with pc := .parked p }
  | .wake, .parked p =>
    if d.resume ∈ s.io.io.scheduled then
      some { s with io := s.io.take d.resume, pc := .woken p }
    else none
  | .disarm, .woken p =>
    (s.timers.next (.cancel p)).map fun timers => { s with timers := timers, pc := .checking }
  | .disarm, .failed p =>
    (s.timers.next (.cancel p)).map fun timers => { s with timers := timers, pc := .returned }
  | .check, .checking => some { s with pc := if s.cancelled then .returned else .calling }
  | .timer a, _ =>
    if ForeignTimer s.timers.added a then
      (s.timers.next a).map fun timers =>
        { s with
          timers := timers
          callback := handOut (timers.log.drop s.timers.log.length) s.callback }
    else none
  | .test p, pc =>
    if s.callback p = .queued then
      some { s with
        callback := Function.update s.callback p
          (if s.cancelled || pc.isReturned then .finished else .passed) }
    else none
  | .set p, _ =>
    if s.callback p = .passed then
      some { s with cancelled := true, callback := Function.update s.callback p .cancelling }
    else none
  | .look p t, _ =>
    if s.callback p = .cancelling then
      (s.io.next (.call t d.fd (.cancelEvent d.event))).map fun io =>
        { s with
          io := io
          callback := Function.update s.callback p
            (if (s.io.io.fdContexts[d.fd]?).isSome then .removing t else .finished) }
    else none
  | .cancel p fails, _ =>
    match s.callback p with
    | .removing t =>
      (s.io.next (.critical t fails)).map fun io =>
        { s with io := io, callback := Function.update s.callback p .finished }
    | _ => none
  | .wait t ready, _ => (s.io.next (.wait t ready)).map fun io => { s with io := io }
  | .handle t fails, _ => (s.io.next (.handle t fails)).map fun io => { s with io := io }
  | _, _ => none

def next (d : DoIo) (s : System P) (a : Step P) : Option (System P) :=
  if s.timers.crashed.isSome ∨ s.io.aborted.isSome then none else s.step d a

/-! ### What a step can do -/

/-- The steps, one constructor for each kind. -/
inductive Next (d : DoIo) (s : System P) : Step P → System P → Prop
  | called (r : Outcome) (pc : Pc P) (hpc : s.pc = .calling)
      (hto : pc = .returned ∨ pc = .calling ∨ pc = .arming) :
    Next d s (.call r) { s with pc := pc }
  | armed (p : P) (now : ℕ) (timers : TimerManager.System P (Callback Unit))
      (hpc : s.pc = .arming)
      (hnext : s.timers.next (.addTimer p d.timeout (.condition ()) false now) = some timers) :
    Next d s (.arm p now) { s with timers := timers, pc := .adding p }
  | entered (p : P) (t : ℕ) (io : IOManager.System) (hpc : s.pc = .adding p)
      (hnext : s.io.next (.call t d.fd d.add) = some io) :
    Next d s (.enter t) { s with io := io, pc := .registering p t }
  | grown (p : P) (t : ℕ) (io : IOManager.System) (hpc : s.pc = .registering p t)
      (hnext : s.io.next (.grow t) = some io) : Next d s .grow { s with io := io }
  | registered (p : P) (t : ℕ) (fails : Bool) (io : IOManager.System)
      (hpc : s.pc = .registering p t) (hnext : s.io.next (.critical t fails) = some io) :
    Next d s (.register fails)
      { s with io := io, pc := if s.io.returns t fails then .added p else .failed p }
  | parked (p : P) (hpc : s.pc = .added p) : Next d s .park { s with pc := .parked p }
  | woken (p : P) (hpc : s.pc = .parked p) (hmem : d.resume ∈ s.io.io.scheduled) :
    Next d s .wake { s with io := s.io.take d.resume, pc := .woken p }
  | disarmed (p : P) (timers : TimerManager.System P (Callback Unit)) (pc : Pc P)
      (hpc : (s.pc = .woken p ∧ pc = .checking) ∨ (s.pc = .failed p ∧ pc = .returned))
      (hnext : s.timers.next (.cancel p) = some timers) :
    Next d s .disarm { s with timers := timers, pc := pc }
  | checked (pc : Pc P) (hpc : s.pc = .checking) (hto : pc = .returned ∨ pc = .calling) :
    Next d s .check { s with pc := pc }
  | foreign (a : TimerManager.Step P (Callback Unit))
      (timers : TimerManager.System P (Callback Unit))
      (ha : ForeignTimer s.timers.added a = true) (hnext : s.timers.next a = some timers) :
    Next d s (.timer a) { s with
      timers := timers
      callback := handOut (timers.log.drop s.timers.log.length) s.callback }
  | dropped (p : P) (hcallback : s.callback p = .queued)
      (hdropped : s.cancelled = true ∨ s.pc = .returned) :
    Next d s (.test p) { s with callback := Function.update s.callback p .finished }
  | passed (p : P) (hcallback : s.callback p = .queued) (hlive : s.cancelled = false) :
    Next d s (.test p) { s with callback := Function.update s.callback p .passed }
  | set (p : P) (hcallback : s.callback p = .passed) :
    Next d s (.set p)
      { s with cancelled := true, callback := Function.update s.callback p .cancelling }
  | looked (p : P) (t : ℕ) (io : IOManager.System) (hcallback : s.callback p = .cancelling)
      (hnext : s.io.next (.call t d.fd (.cancelEvent d.event)) = some io) :
    Next d s (.look p t) { s with
      io := io
      callback := Function.update s.callback p
        (if (s.io.io.fdContexts[d.fd]?).isSome then .removing t else .finished) }
  | cancelled (p : P) (t : ℕ) (fails : Bool) (io : IOManager.System)
      (hcallback : s.callback p = .removing t)
      (hnext : s.io.next (.critical t fails) = some io) :
    Next d s (.cancel p fails)
      { s with io := io, callback := Function.update s.callback p .finished }
  | waited (t : ℕ) (ready : List (ℕ × Events × Bool)) (io : IOManager.System)
      (hnext : s.io.next (.wait t ready) = some io) : Next d s (.wait t ready) { s with io := io }
  | handled (t : ℕ) (fails : Bool) (io : IOManager.System)
      (hnext : s.io.next (.handle t fails) = some io) :
    Next d s (.handle t fails) { s with io := io }

/-- **Inversion of a step.** -/
theorem Next.of_next {d : DoIo} {s s' : System P} {a : Step P} (h : s.next d a = some s') :
    Next d s a s' := by
  unfold System.next at h
  split at h
  · cases h
  unfold System.step at h
  split at h
  next r hpc =>
    obtain rfl := Option.some.inj h
    refine .called r _ hpc ?_
    cases r <;> simp
  next p now hpc =>
    obtain ⟨timers, hnext, rfl⟩ := Option.map_eq_some_iff.mp h
    exact .armed p now timers hpc hnext
  next t p hpc =>
    obtain ⟨io, hnext, rfl⟩ := Option.map_eq_some_iff.mp h
    exact .entered p t io hpc hnext
  next p t hpc =>
    obtain ⟨io, hnext, rfl⟩ := Option.map_eq_some_iff.mp h
    exact .grown p t io hpc hnext
  next fails p t hpc =>
    obtain ⟨io, hnext, rfl⟩ := Option.map_eq_some_iff.mp h
    exact .registered p t fails io hpc hnext
  next p hpc =>
    obtain rfl := Option.some.inj h
    exact .parked p hpc
  next p hpc =>
    split_ifs at h with hmem
    obtain rfl := Option.some.inj h
    exact .woken p hpc hmem
  next p hpc =>
    obtain ⟨timers, hnext, rfl⟩ := Option.map_eq_some_iff.mp h
    exact .disarmed p timers _ (Or.inl ⟨hpc, rfl⟩) hnext
  next p hpc =>
    obtain ⟨timers, hnext, rfl⟩ := Option.map_eq_some_iff.mp h
    exact .disarmed p timers _ (Or.inr ⟨hpc, rfl⟩) hnext
  next hpc =>
    obtain rfl := Option.some.inj h
    refine .checked _ hpc ?_
    cases s.cancelled <;> simp
  next a =>
    split_ifs at h with ha
    obtain ⟨timers, hnext, rfl⟩ := Option.map_eq_some_iff.mp h
    exact .foreign a timers ha hnext
  next p =>
    split_ifs at h with hcallback hdropped
    · obtain rfl := Option.some.inj h
      refine .dropped p hcallback ?_
      rw [Bool.or_eq_true] at hdropped
      exact hdropped.imp_right Pc.eq_returned
    · obtain rfl := Option.some.inj h
      refine .passed p hcallback ?_
      rw [Bool.or_eq_true, not_or] at hdropped
      exact Bool.eq_false_iff.mpr hdropped.1
  next p =>
    split_ifs at h with hcallback
    obtain rfl := Option.some.inj h
    exact .set p hcallback
  next p t =>
    split at h
    next hcallback =>
      obtain ⟨io, hnext, rfl⟩ := Option.map_eq_some_iff.mp h
      exact .looked p t io hcallback hnext
    next => cases h
  next p fails =>
    split at h
    next t hcallback =>
      obtain ⟨io, hnext, rfl⟩ := Option.map_eq_some_iff.mp h
      exact .cancelled p t fails io hcallback hnext
    next => cases h
  next t ready =>
    obtain ⟨io, hnext, rfl⟩ := Option.map_eq_some_iff.mp h
    exact .waited t ready io hnext
  next t fails =>
    obtain ⟨io, hnext, rfl⟩ := Option.map_eq_some_iff.mp h
    exact .handled t fails io hnext
  next => cases h

end System

end DoIo

end Muhui
