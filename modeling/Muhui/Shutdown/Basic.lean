/-
  The workers of an `IOManager` and `stop`.

  `Shutdown P` puts the pieces together that `IOManager::stopping` looks at: the scheduler with its
  queue and its count of active workers, the timers, and `m_pendingEventCount`.  A worker is in the
  loop of `run` or in its idle fiber (`Place`).  `stopping` reads the timers, the count of events
  and the scheduler one after the other, and each read is a step; the idle fiber keeps the
  callbacks of expired timers in a vector of its own before it schedules them.

  Of the events this model keeps who waits for one (`waiting`) and the count.  `triggerEvent`
  schedules the waiting job and the count is decremented afterwards, so the thread owes the
  decrement in between (`owing`).  Which descriptors the events belong to, and the table of
  contexts, are the subject of the modules on the event bookkeeping.  `tickle` only makes
  `epoll_wait` return, which it may do at any time here.
-/
import Muhui.Scheduler.Next
import Muhui.Timer.Delivery

namespace Muhui

namespace Shutdown

open Scheduler (Job)

/-- The next read of `IOManager::stopping`. -/
inductive Eval
  /-- `timeout = getNextTimer()` -/
  | timer
  /-- `m_pendingEventCount == 0` -/
  | pending
  /-- `Scheduler::stopping()` -/
  | queue
  deriving DecidableEq

/-- Where a worker is in `IOManager::idle`. -/
inductive Idle
  | test (e : Eval)
  /-- In `epoll_wait`. -/
  | waiting
  /-- About to call `listExpiredCb`. -/
  | listing
  /-- `listExpiredCb` has found a timer at clock reading `now`. -/
  | taking (now : ℕ)
  /-- Has the callbacks `cbs` and has not scheduled them. -/
  | holding (cbs : List (Option ℕ))
  /-- Handles the records of `epoll_wait`. -/
  | triggering
  deriving DecidableEq

/-- Where a thread is. -/
inductive Place
  /-- Not in `run`. -/
  | outside
  /-- The thread that uses the scheduler as caller evaluates `stopping` in `stop`, for the `n`-th
  time from the end. -/
  | stopTest (n : ℕ) (e : Eval)
  /-- In the loop of `run`. -/
  | running
  | idle (i : Idle)
  /-- In the loop of `run` with an idle fiber that is over. -/
  | leaving
  /-- `run` has returned, or `stop` does not call it. -/
  | exited
  deriving DecidableEq

/-- The threads of a scheduler: at least one (`MUHUI_ASSERT(threads > 0)`). -/
structure Workers where
  /-- The threads of `m_threads`. -/
  pool : List ℕ
  /-- `m_rootThread`, with `use_caller`. -/
  caller : Option ℕ
  nonempty : pool ≠ [] ∨ caller ≠ none
  /-- The threads of `m_threads` are threads of their own. -/
  notMem : ∀ w, caller = some w → w ∉ pool

/-- `w` runs, or is going to run, the loop of `run`. -/
def Workers.mem (ws : Workers) (w : ℕ) : Prop := w ∈ ws.pool ∨ ws.caller = some w

/-- What a fiber, a callback or another thread can do to the `IOManager`. -/
inductive Op (P : Type*)
  | schedule (job : Job) (thread : Option ℕ)
  | newFiber
  /-- `addTimer`, `cancel`, `refresh` or `reset`. -/
  | timer (a : TimerManager.Step P ℕ)
  /-- `addEvent` with a callback, or for the calling fiber. -/
  | addEvent (cb : Option ℕ)
  | delEvent (job : Job)
  /-- `triggerEvent` in `cancelEvent`, `cancelAll` or `idle`. -/
  | trigger (job : Job)

/-- The steps.  `by` is the worker on which a fiber, or whose idle fiber, does something; `none` is
any other thread. -/
inductive Step (P : Type*)
  /-- A section of `run`. -/
  | sched (a : Scheduler.Step)
  | op (by' : Option ℕ) (o : Op P)
  /-- `--m_pendingEventCount` after `triggerEvent`. -/
  | settle (by' : Option ℕ)
  /-- The next read of `stopping`, at clock reading `now`. -/
  | evaluate (w now : ℕ)
  /-- `epoll_wait` returns. -/
  | wake (w : ℕ)
  /-- `listExpiredCb` reads the clock and tests for emptiness. -/
  | listTest (w now : ℕ)
  /-- The section of `listExpiredCb` under the write lock. -/
  | listTake (w : ℕ) (probe : P)
  /-- `schedule(cbs.begin(), cbs.end())` -/
  | submit (w : ℕ)
  /-- The idle fiber switches back to `run`. -/
  | idleOut (w : ℕ)
  /-- `stop` sets `m_stopping`. -/
  | stop

end Shutdown

open Shutdown in
/-- An `IOManager` and its threads. -/
structure Shutdown (P : Type*) where
  workers : Workers
  sched : Scheduler
  timers : TimerManager.System P ℕ
  /-- Who waits for an event. -/
  waiting : List Scheduler.Job
  pendingEventCount : ℤ
  /-- The threads that have triggered an event and not yet decremented the count. -/
  owing : List (Option ℕ)
  place : ℕ → Place
  /-- `m_autoStop && m_stopping` -/
  stopping : Bool

namespace Shutdown

open Scheduler (Job take)

/-- The worker whose section of `run` it is. -/
def worker : Scheduler.Step → Option ℕ
  | .dequeue w | .check w | .prepare w | .swapIn w | .yield w _ | .swapOut w | .count w | .post w
  | .hold w => some w
  | .schedule _ _ | .newFiber | .register _ | .trigger _ => none

/-- The operations on timers that anybody can call. -/
def isOp {P : Type*} : TimerManager.Step P ℕ → Bool
  | .addTimer .. | .cancel .. | .refresh .. | .reset .. => true
  | .getNextTimer .. | .listTest .. | .listTake .. => false

/-- The read of `stopping` that a thread in this place makes next. -/
def Place.eval : Place → Option Eval
  | stopTest _ e | idle (.test e) => some e
  | _ => none

/-- The thread goes on with its evaluation of `stopping`. -/
def Place.goOn : Place → Eval → Place
  | stopTest n _, e => stopTest n e
  | idle _, e => idle (.test e)
  | p, _ => p

/-- `stopping` returns true: the idle fiber ends, or `stop` does not call `run`. -/
def Place.pass : Place → Place
  | stopTest _ _ => exited
  | idle _ => leaving
  | p => p

/-- `stopping` returns false: the idle fiber waits, and `stop` evaluates again or calls `run`. -/
def Place.fail : Place → Place
  | stopTest (n + 2) _ => stopTest (n + 1) .timer
  | stopTest _ _ => running
  | idle _ => idle .waiting
  | p => p

variable {P : Type*} [LinearOrder P] (s : Shutdown P)

def init (ws : Workers) (now : ℕ) : Shutdown P where
  workers := ws
  sched := .init
  timers := .init (fun _ => ⟨false, 0, 0, none⟩) now
  waiting := []
  pendingEventCount := 0
  owing := []
  place w := if w ∈ ws.pool then .running else .outside
  stopping := false

def move (w : ℕ) (p : Place) : Shutdown P := { s with place := Function.update s.place w p }

/-- `Scheduler::stopping` -/
def schedStopping : Bool :=
  s.stopping && decide (s.sched.activeThreadCount = 0) && s.sched.fibers.isEmpty

/-- A fiber runs on worker `w`. -/
def runsFiber (w : ℕ) : Bool :=
  match s.place w, s.sched.pc w with
  | .running, .running _ _ | .leaving, .running _ _ => true
  | _, _ => false

/-- May `by'` do `o` now: a worker through the fiber it runs, or its idle fiber when it handles
events. -/
def may (by' : Option ℕ) (o : Op P) : Bool :=
  match by' with
  | none => true
  | some w =>
    !s.owing.contains (some w) &&
      (s.runsFiber w ||
        match o with
        | .trigger _ => decide (s.place w = .idle .triggering)
        | _ => false)

/-- Who waits for the event that `by'` adds. -/
def eventJob (by' : Option ℕ) : Option ℕ → Option Job
  | some c => some (.cb c)
  | none =>
    match by' with
    | some w =>
      match s.sched.pc w with
      | .running f _ => some (.fiber f)
      | _ => none
    | none => none

def op (by' : Option ℕ) : Op P → Option (Shutdown P)
  | .schedule job thread =>
    (s.sched.next (.schedule job thread)).map fun sched => { s with sched := sched }
  | .newFiber => (s.sched.next .newFiber).map fun sched => { s with sched := sched }
  | .timer a =>
    if isOp a then (s.timers.next a).map fun timers => { s with timers := timers } else none
  | .addEvent cb =>
    (s.eventJob by' cb).map fun job =>
      { s with waiting := job :: s.waiting, pendingEventCount := s.pendingEventCount + 1 }
  | .delEvent job =>
    if job ∈ s.waiting then
      some { s with
        waiting := s.waiting.erase job
        pendingEventCount := s.pendingEventCount - 1 }
    else none
  | .trigger job =>
    if job ∈ s.waiting then
      some { s with
        sched := s.sched.push job none
        waiting := s.waiting.erase job
        owing := by' :: s.owing }
    else none

/-- One read of `IOManager::stopping`. -/
def evaluate (w now : ℕ) : Option (Shutdown P) :=
  match (s.place w).eval with
  | none => none
  | some .timer =>
    -- the clock has been running for a while
    if now = 0 then none
    else
      let r := s.timers.tm.getNextTimer now
      let s' := { s with timers := { s.timers with tm := r.2 } }
      some (s'.move w
        (if r.1 = 2 ^ 64 - 1 then (s.place w).goOn .pending else (s.place w).fail))
  | some .pending =>
    some (s.move w
      (if s.pendingEventCount = 0 then (s.place w).goOn .queue else (s.place w).fail))
  | some .queue =>
    some (s.move w (if s.schedStopping then (s.place w).pass else (s.place w).fail))

/-- A section of `run`.  A worker that finds no task enters its idle fiber, or leaves `run` when
that fiber is over. -/
def schedStep (a : Scheduler.Step) (w : ℕ) : Option (Shutdown P) :=
  if (s.place w = .running ∨ s.place w = .leaving) ∧ some w ∉ s.owing then
    match a, take s.sched.state w s.sched.fibers with
    | .dequeue _, none =>
      (s.sched.next a).map fun sched =>
        move { s with sched := sched } w
          (if s.place w = .running then .idle (.test .timer) else .exited)
    | _, _ => (s.sched.next a).map fun sched => { s with sched := sched }
  else none

/-- The vector of `listExpiredCb`. -/
def expired (now : ℕ) (probe : P) : List (Option ℕ) :=
  match s.timers.tm.listExpiredCb now probe with
  | .ok (out, _) => out.map Prod.snd
  | .error _ => []

def next (s : Shutdown P) (a : Step P) : Option (Shutdown P) :=
  if s.sched.fault.isSome ∨ s.timers.crashed.isSome then none
  else
    match a with
    | .sched a => (worker a).bind fun w => s.schedStep a w
    | .op by' o => if s.may by' o then s.op by' o else none
    | .settle by' =>
      if by' ∈ s.owing then
        some { s with
          pendingEventCount := s.pendingEventCount - 1
          owing := s.owing.erase by' }
      else none
    | .evaluate w now => s.evaluate w now
    | .wake w => if s.place w = .idle .waiting then some (s.move w (.idle .listing)) else none
    | .listTest w now =>
      if s.place w = .idle .listing then
        (s.timers.next (.listTest now)).map fun timers =>
          move { s with timers := timers } w
            (if s.timers.tm.timer.isEmpty then .idle (.holding []) else .idle (.taking now))
      else none
    | .listTake w probe =>
      match s.place w with
      | .idle (.taking now) =>
        (s.timers.next (.listTake now probe)).map fun timers =>
          move { s with timers := timers } w (.idle (.holding (s.expired now probe)))
      | _ => none
    | .submit w =>
      match s.place w with
      | .idle (.holding cbs) =>
        let tasks := (cbs.filterMap id).map fun c => ⟨.cb c, none⟩
        some (move { s with sched := { s.sched with fibers := s.sched.fibers ++ tasks } } w
          (.idle .triggering))
      | _ => none
    | .idleOut w =>
      if s.place w = .idle .triggering ∧ some w ∉ s.owing then some (s.move w .running) else none
    | .stop =>
      if s.stopping then none
      else
        let s' := { s with stopping := true }
        match s.workers.caller with
        | none => some s'
        | some w =>
          -- with no other thread `stop` evaluates `stopping` twice
          some (s'.move w (.stopTest (if s.workers.pool = [] then 2 else 1) .timer))

/-- `stop` has returned. -/
def Returned (s : Shutdown P) : Prop :=
  s.stopping = true ∧ ∀ w, s.workers.mem w → s.place w = .exited

end Shutdown

end Muhui
