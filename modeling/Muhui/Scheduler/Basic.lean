/-
  `Scheduler::run` and the fibers it runs.

  Any number of workers execute `run`.  A worker takes a task out of `m_fibers` under `m_mutex`,
  looks at the state of its fiber, switches to it (`swapIn`), and when the fiber has switched back
  (`swapOut`) looks at the state again.  A fiber that yields writes its state first and saves its
  context afterwards.  Each of these is one step, and so are `schedule` and the registration and
  triggering of an event, which any thread can do at any time.  `m_activeThreadCount` is read by
  other threads, so its decrement is a step of its own.

  A callback runs in a fiber of the worker's own, `cb_fiber`, which is reused while the callbacks
  run to their end.

  Fibers and callbacks are numbers; a worker's number is its thread id.  `inRun f` records what the
  code does not: that the last run of the fiber has begun (`swapIn`) and has not been completed
  (`swapOut`), so that its saved context is stale.
-/
import Mathlib.Logic.Function.Basic
import Mathlib.Data.Nat.Notation
import Mathlib.Data.Int.Notation
import Muhui.Transition.Run

namespace Muhui

/-- `Fiber::State` -/
inductive FiberState
  | INIT
  | HOLD
  | EXEC
  | TERM
  | READY
  | EXCEPT
  deriving DecidableEq

namespace Scheduler

/-- What `FiberAndThread` holds besides the thread: a fiber or a callback. -/
inductive Job
  | fiber (f : ℕ)
  | cb (c : ℕ)
  deriving DecidableEq

/-- `Scheduler::FiberAndThread`; the thread is `none` for -1. -/
structure FiberAndThread where
  job : Job
  thread : Option ℕ
  deriving DecidableEq

/-- Why a run of the program stops. -/
inductive Fault
  /-- `MUHUI_ASSERT(m_state != EXEC)` in `swapIn` -/
  | swapInAssert
  /-- `swapIn` on a fiber whose last run has not completed its `swapOut` -/
  | staleResume
  /-- `MUHUI_ASSERT(cur->m_state == EXEC)` in `YieldToHold` and `YieldToReady` -/
  | yieldAssert
  /-- The assertion on the state in `Fiber::reset` -/
  | resetAssert
  deriving DecidableEq

/-- Where a worker is in `run`.  The flag says that the fiber is the worker's `cb_fiber`. -/
inductive Pc
  /-- At the head of the loop. -/
  | scanning
  /-- Has taken a fiber out of the queue. -/
  | taken (f : ℕ)
  /-- Has found the taken fiber over. -/
  | dropping
  /-- Has taken a callback out of the queue. -/
  | takenCb (c : ℕ)
  /-- About to `swapIn`. -/
  | entering (f : ℕ) (isCb : Bool)
  /-- The fiber is running. -/
  | running (f : ℕ) (isCb : Bool)
  /-- The fiber has written its state and is about to save its context. -/
  | swappingOut (f : ℕ) (isCb : Bool)
  /-- Back in `run`. -/
  | returned (f : ℕ) (isCb : Bool)
  /-- No longer counted as active; about to look at the state of the fiber. -/
  | counted (f : ℕ) (isCb : Bool)
  /-- About to write `m_state = HOLD`. -/
  | holding (f : ℕ) (isCb : Bool)
  deriving DecidableEq

/-- How a run of a fiber ends. -/
inductive Yield
  | toHold
  | toReady
  | term
  | except
  deriving DecidableEq

end Scheduler

open Scheduler in
/-- A scheduler with its workers and fibers. -/
structure Scheduler where
  /-- `m_fibers` -/
  fibers : List FiberAndThread
  /-- `m_activeThreadCount` -/
  activeThreadCount : ℤ
  /-- `m_state` of every fiber. -/
  state : ℕ → FiberState
  /-- How many fibers have been constructed. -/
  created : ℕ
  /-- The last run of the fiber has not completed its `swapOut`. -/
  inRun : ℕ → Bool
  /-- The fibers that are waiting in an `EventContext`. -/
  registered : List ℕ
  pc : ℕ → Pc
  /-- `cb_fiber` of every worker. -/
  cbFiber : ℕ → Option ℕ
  fault : Option Fault

namespace Scheduler

/-- Does the scan of `m_fibers` pass over this task: it is for another thread, or its fiber is
executing. -/
def skips (state : ℕ → FiberState) (w : ℕ) (t : FiberAndThread) : Bool :=
  (t.thread.isSome && decide (t.thread ≠ some w)) ||
    match t.job with
    | .fiber f => decide (state f = .EXEC)
    | .cb _ => false

/-- The scan of `m_fibers` under `m_mutex`: the first task the worker may take, and what is left. -/
def take (state : ℕ → FiberState) (w : ℕ) :
    List FiberAndThread → Option (FiberAndThread × List FiberAndThread)
  | [] => none
  | t :: ts =>
    if skips state w t then (take state w ts).map fun r => (r.1, t :: r.2) else some (t, ts)

/-- The state a fiber writes before it switches away. -/
def Yield.state : Yield → FiberState
  | toHold => .HOLD
  | toReady => .READY
  | term => .TERM
  | except => .EXCEPT

/-- The yields that assert that the fiber is executing. -/
def Yield.asserts : Yield → Bool
  | toHold | toReady => true
  | term | except => false

/-- The states in which a fiber is over. -/
def finished (st : FiberState) : Bool := decide (st = .TERM) || decide (st = .EXCEPT)

inductive Step
  /-- `schedule`, by any thread. -/
  | schedule (job : Job) (thread : Option ℕ)
  /-- Some thread constructs a fiber. -/
  | newFiber
  /-- The fiber running on a worker registers itself for an event (`addEvent`). -/
  | register (w : ℕ)
  /-- `triggerEvent` schedules a registered fiber. -/
  | trigger (f : ℕ)
  /-- The section of `run` under `m_mutex`. -/
  | dequeue (w : ℕ)
  /-- The state of a taken fiber is compared with `TERM` and `EXCEPT`. -/
  | check (w : ℕ)
  /-- A fiber is made ready for a taken callback. -/
  | prepare (w : ℕ)
  | swapIn (w : ℕ)
  /-- The running fiber writes its state: `YieldToHold`, `YieldToReady` or the end of `MainFunc`. -/
  | yield (w : ℕ) (y : Yield)
  /-- The context switch of `swapOut`. -/
  | swapOut (w : ℕ)
  /-- `--m_activeThreadCount` -/
  | count (w : ℕ)
  /-- The state is looked at after the run. -/
  | post (w : ℕ)
  /-- The write `m_state = HOLD` after the run. -/
  | hold (w : ℕ)

variable (s : Scheduler)

def init : Scheduler where
  fibers := []
  activeThreadCount := 0
  state _ := .INIT
  created := 0
  inRun _ := false
  registered := []
  pc _ := .scanning
  cbFiber _ := none
  fault := none

/-- Worker `w` moves on to `pc`. -/
def move (w : ℕ) (pc : Pc) : Scheduler := { s with pc := Function.update s.pc w pc }

/-- `m_state` of `f` is written. -/
def setState (f : ℕ) (st : FiberState) : Scheduler :=
  { s with state := Function.update s.state f st }

/-- A task is pushed to `m_fibers`. -/
def push (job : Job) (thread : Option ℕ) : Scheduler :=
  { s with fibers := s.fibers ++ [⟨job, thread⟩] }

/-- Has the fiber that the job names been constructed? -/
def knows (s : Scheduler) : Job → Bool
  | .fiber f => decide (f < s.created)
  | .cb _ => true

/-- `Fiber::reset`: the assertion on the state, a new context and the state `INIT`. -/
def reset (f : ℕ) : Option Scheduler :=
  if s.state f = .INIT ∨ finished (s.state f) then some (s.setState f .INIT) else none

/-! ### The sections of `run` -/

/-- The section under `m_mutex`. -/
def dequeue (w : ℕ) : Option Scheduler :=
  if s.pc w = .scanning then
    match take s.state w s.fibers with
    | none => some s
    | some (t, ts) =>
      let s := { s with fibers := ts, activeThreadCount := s.activeThreadCount + 1 }
      match t.job with
      | .fiber f => some (s.move w (.taken f))
      | .cb c => some (s.move w (.takenCb c))
  else none

/-- A fiber that is over is dropped. -/
def check (w : ℕ) : Option Scheduler :=
  match s.pc w with
  | .taken f =>
    if finished (s.state f) then some (s.move w .dropping)
    else some (s.move w (.entering f false))
  | _ => none

/-- `cb_fiber` is reset to the taken callback, or constructed. -/
def prepare (w : ℕ) : Option Scheduler :=
  match s.pc w, s.cbFiber w with
  | .takenCb _, some f =>
    match s.reset f with
    | some s => some (s.move w (.entering f true))
    | none => some { s with fault := some .resetAssert }
  | .takenCb _, none =>
    let f := s.created
    some { (s.setState f .INIT).move w (.entering f true) with
      created := s.created + 1
      cbFiber := Function.update s.cbFiber w (some f) }
  | _, _ => none

/-- `Fiber::swapIn` -/
def swapIn (w : ℕ) : Option Scheduler :=
  match s.pc w with
  | .entering f isCb =>
    if s.state f = .EXEC then some { s with fault := some .swapInAssert }
    else if s.inRun f then some { s with fault := some .staleResume }
    else
      some { (s.setState f .EXEC).move w (.running f isCb) with
        inRun := Function.update s.inRun f true }
  | _ => none

/-- The write of `m_state` before `swapOut`, in `YieldToHold`, `YieldToReady` and `MainFunc`. -/
def yield (w : ℕ) (y : Yield) : Option Scheduler :=
  match s.pc w with
  | .running f isCb =>
    if y.asserts ∧ s.state f ≠ .EXEC then some { s with fault := some .yieldAssert }
    else some ((s.setState f y.state).move w (.swappingOut f isCb))
  | _ => none

/-- `Fiber::swapOut` -/
def swapOut (w : ℕ) : Option Scheduler :=
  match s.pc w with
  | .swappingOut f isCb =>
    some { s.move w (.returned f isCb) with inRun := Function.update s.inRun f false }
  | _ => none

/-- The worker stops counting as active: the task is dropped, or its fiber has switched back. -/
def count (w : ℕ) : Option Scheduler :=
  let s' := { s with activeThreadCount := s.activeThreadCount - 1 }
  match s.pc w with
  | .dropping => some (s'.move w .scanning)
  | .returned f isCb => some (s'.move w (.counted f isCb))
  | _ => none

/-- `run` looks at the state of the fiber that has switched back. -/
def post (w : ℕ) : Option Scheduler :=
  match s.pc w with
  | .counted f isCb =>
    if s.state f = .READY then
      let s := (s.push (.fiber f) none).move w .scanning
      some (if isCb then { s with cbFiber := Function.update s.cbFiber w none } else s)
    else if finished (s.state f) then
      if isCb then
        -- `cb_fiber->reset(nullptr)`
        match s.reset f with
        | some s => some (s.move w .scanning)
        | none => some { s with fault := some .resetAssert }
      else some (s.move w .scanning)
    else some (s.move w (.holding f isCb))
  | _ => none

/-- `run` writes `m_state = HOLD`. -/
def hold (w : ℕ) : Option Scheduler :=
  match s.pc w with
  | .holding f isCb =>
    let s := (s.setState f .HOLD).move w .scanning
    some (if isCb then { s with cbFiber := Function.update s.cbFiber w none } else s)
  | _ => none

def next (a : Step) : Option Scheduler :=
  if s.fault.isSome then none
  else
    match a with
    | .schedule job thread => if s.knows job then some (s.push job thread) else none
    | .newFiber => some { s.setState s.created .INIT with created := s.created + 1 }
    | .register w =>
      match s.pc w with
      | .running f _ => some { s with registered := f :: s.registered }
      | _ => none
    | .trigger f =>
      if f ∈ s.registered then
        some { s.push (.fiber f) none with registered := s.registered.erase f }
      else none
    | .dequeue w => s.dequeue w
    | .check w => s.check w
    | .prepare w => s.prepare w
    | .swapIn w => s.swapIn w
    | .yield w y => s.yield w y
    | .swapOut w => s.swapOut w
    | .count w => s.count w
    | .post w => s.post w
    | .hold w => s.hold w

end Scheduler

end Muhui
