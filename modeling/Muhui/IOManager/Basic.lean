/-
  The event bookkeeping of `iomanager.cc`.

  `IOManager` is the part of an `IOManager` that `addEvent`, `delEvent`, `cancelEvent`,
  `cancelAll` and the event loop of `idle` work on: the `FdContext` objects by address, the
  table `m_fdContexts` of pointers to them, `m_pendingEventCount`, the kernel's epoll instance and
  the tasks handed to schedulers.  Each definition below is one critical section: a lookup under
  the read lock of `m_mutex`, a resize under its write lock, or what runs under the mutex of one
  `FdContext`, which is the argument `ctx`.

  Schedulers, fibers and callbacks are opaque handles.  Whether `epoll_ctl` fails is an argument
  (`fails`); it also fails, as the kernel's does, when `EPOLL_CTL_ADD` finds the descriptor
  registered or the other two operations do not.  A failed assertion, a null pointer or an index
  out of bounds is an `Abort`.
-/
import Mathlib.Logic.Function.Basic
import Mathlib.Data.Int.Notation
import Mathlib.Data.Nat.Notation

namespace Muhui

/-- `IOManager::Event`: the events a call can name. -/
inductive Event
  | READ
  | WRITE
  deriving DecidableEq

/-- A set of events as a bit mask. -/
structure Events where
  read : Bool
  write : Bool
  deriving DecidableEq

namespace Events

/-- `IOManager::NONE` -/
def NONE : Events := ⟨false, false⟩

/-- `m & event` as a truth value. -/
def test (m : Events) : Event → Bool
  | .READ => m.read
  | .WRITE => m.write

/-- `m | event` -/
def add (m : Events) : Event → Events
  | .READ => { m with read := true }
  | .WRITE => { m with write := true }

/-- `m & ~event` -/
def remove (m : Events) : Event → Events
  | .READ => { m with read := false }
  | .WRITE => { m with write := false }

/-- `m | n` -/
def union (m n : Events) : Events := ⟨m.read || n.read, m.write || n.write⟩

/-- `m & n` -/
def inter (m n : Events) : Events := ⟨m.read && n.read, m.write && n.write⟩

/-- `m & ~n` -/
def diff (m n : Events) : Events := ⟨m.read && !n.read, m.write && !n.write⟩

end Events

/-- Why the process stops. -/
inductive Abort
  /-- `MUHUI_ASSERT(!(fd_ctx->events & event))` in `addEvent` -/
  | eventExists
  /-- `MUHUI_ASSERT(!event_ctx.scheduler && !event_ctx.fiber && !event_ctx.cb)` in `addEvent` -/
  | contextInUse
  /-- `MUHUI_ASSERT(events & event)` in `triggerEvent` -/
  | triggerEvent
  /-- `ctx.scheduler->schedule` on a null scheduler -/
  | nullScheduler
  /-- `MUHUI_ASSERT(fd_ctx->events == 0)` in `cancelAll` -/
  | eventsLeft
  /-- `m_fdContexts[fd]` past the end of the table -/
  | outOfBounds
  deriving DecidableEq

/-- `FdContext::EventContext`: who waits for an event. -/
structure EventContext where
  scheduler : Option ℕ
  fiber : Option ℕ
  cb : Option ℕ
  deriving DecidableEq

/-- A task in the queue of a scheduler (`FiberAndThread`). -/
structure Task where
  scheduler : ℕ
  fiber : Option ℕ
  cb : Option ℕ
  deriving DecidableEq

structure FdContext where
  read : EventContext
  write : EventContext
  fd : ℕ
  events : Events
  deriving DecidableEq

namespace EventContext

/-- An event context as it is constructed and as `resetContext` leaves it. -/
def empty : EventContext := ⟨none, none, none⟩

/-- What `addEvent` writes: the callback when it has one, the calling fiber otherwise. -/
def waiting (scheduler : Option ℕ) (fiber : ℕ) : Option ℕ → EventContext
  | some cb => ⟨scheduler, none, some cb⟩
  | none => ⟨scheduler, some fiber, none⟩

end EventContext

namespace FdContext

variable (c : FdContext)

/-- `new FdContext` with its `fd` set. -/
def new (fd : ℕ) : FdContext := ⟨.empty, .empty, fd, .NONE⟩

def getContext : Event → EventContext
  | .READ => c.read
  | .WRITE => c.write

/-- Writes through the reference that `getContext` returns. -/
def setContext (e : Event) (ctx : EventContext) : FdContext :=
  match e with
  | .READ => { c with read := ctx }
  | .WRITE => { c with write := ctx }

/-- `FdContext::triggerEvent`.  `schedule` takes a pointer and swaps the fiber or the callback out
of the context; it queues nothing when there is neither. -/
def triggerEvent (event : Event) : Except Abort (List Task × FdContext) :=
  if c.events.test event then
    let c := { c with events := c.events.remove event }
    let ctx := c.getContext event
    match ctx.scheduler with
    | none => .error .nullScheduler
    | some scheduler =>
      if ctx.cb.isSome then
        .ok ([⟨scheduler, none, ctx.cb⟩], c.setContext event ⟨none, ctx.fiber, none⟩)
      else if ctx.fiber.isSome then
        .ok ([⟨scheduler, ctx.fiber, none⟩], c.setContext event ⟨none, none, ctx.cb⟩)
      else .ok ([], c.setContext event ⟨none, ctx.fiber, ctx.cb⟩)
  else .error .triggerEvent

end FdContext

/-! ### The kernel's side -/

inductive EpollCtlOp
  | ADD
  | MOD
  | DEL
  deriving DecidableEq

/-- An epoll instance. -/
structure Epoll where
  /-- The interest mask and the `data.ptr` of every registered descriptor. -/
  interest : ℕ → Option (Events × ℕ)
  /-- The `epoll_ctl` calls so far, newest first, each with whether the descriptor was
  registered. -/
  calls : List (EpollCtlOp × Bool)

/-- `epoll_ctl(m_epfd, op, fd, {events, ptr})`, true when it succeeds. -/
def Epoll.ctl (ep : Epoll) (op : EpollCtlOp) (fd : ℕ) (events : Events) (ptr : ℕ)
    (fails : Bool) : Bool × Epoll :=
  let registered := (ep.interest fd).isSome
  let ep := { ep with calls := (op, registered) :: ep.calls }
  if fails then (false, ep)
  else
    match op, registered with
    | .ADD, false | .MOD, true =>
      (true, { ep with interest := Function.update ep.interest fd (some (events, ptr)) })
    | .DEL, true => (true, { ep with interest := Function.update ep.interest fd none })
    | _, _ => (false, ep)

/-- A record that `epoll_wait` has filled in: `EPOLLIN` and `EPOLLOUT`, whether `EPOLLERR` or
`EPOLLHUP` is among the bits, and `data.ptr`. -/
structure EpollEvent where
  events : Events
  err : Bool
  ptr : ℕ
  deriving DecidableEq

/-! ### The critical sections -/

structure IOManager where
  /-- The `FdContext` objects by address. -/
  mem : ℕ → FdContext
  /-- How many of them have been created; `new` returns their number. -/
  created : ℕ
  /-- `m_fdContexts` -/
  fdContexts : List ℕ
  /-- `m_pendingEventCount` -/
  pendingEventCount : ℤ
  /-- What `m_epfd` refers to. -/
  epoll : Epoll
  /-- The tasks handed to schedulers, oldest first. -/
  scheduled : List Task

namespace IOManager

variable (io : IOManager)

/-- `IOManager::contextResize`: `resize` keeps the front of the table, and every slot behind it
gets a new `FdContext`. -/
def contextResize (size : ℕ) : IOManager :=
  let kept := io.fdContexts.take size
  let n := size - kept.length
  { io with
    mem := fun p =>
      if io.created ≤ p ∧ p < io.created + n then .new (kept.length + (p - io.created))
      else io.mem p
    created := io.created + n
    fdContexts := kept ++ (List.range n).map (io.created + ·) }

/-- The size that `addEvent` asks for: `fd * 1.5`, truncated. -/
def growTarget (fd : ℕ) : ℕ := fd * 3 / 2

/-- `IOManager::IOManager` -/
def new : IOManager :=
  contextResize
    { mem := fun _ => .new 0, created := 0, fdContexts := [], pendingEventCount := 0,
      epoll := ⟨fun _ => none, []⟩, scheduled := [] } 32

/-- The descriptor `fd` is closed, and the kernel forgets its registration. -/
def forget (fd : ℕ) : IOManager :=
  { io with epoll := { io.epoll with interest := Function.update io.epoll.interest fd none } }

/-- A write to the object at `ctx`. -/
def store (ctx : ℕ) (c : FdContext) : IOManager :=
  { io with mem := Function.update io.mem ctx c }

/-- `fd_ctx->triggerEvent(event)` followed by `--m_pendingEventCount`. -/
def trigger (ctx : ℕ) (event : Event) : Except Abort IOManager :=
  match (io.mem ctx).triggerEvent event with
  | .error a => .error a
  | .ok (tasks, c) =>
    .ok { io.store ctx c with
      pendingEventCount := io.pendingEventCount - 1
      scheduled := io.scheduled ++ tasks }

/-- `if(mask & event) { triggerEvent(event); --m_pendingEventCount; }` -/
def triggerIf (mask : Events) (ctx : ℕ) (event : Event) : Except Abort IOManager :=
  if mask.test event then io.trigger ctx event else .ok io

/-- `IOManager::addEvent` under the mutex of the context: true for the return value 0.
`scheduler` and `fiber` are what `Scheduler::GetThis()` and `Fiber::GetThis()` return. -/
def addEvent (ctx fd : ℕ) (event : Event) (cb : Option ℕ) (scheduler : Option ℕ) (fiber : ℕ)
    (fails : Bool) : Except Abort (Bool × IOManager) :=
  let fd_ctx := io.mem ctx
  if fd_ctx.events.test event then .error .eventExists
  else
    let op := if fd_ctx.events = .NONE then .ADD else .MOD
    let r := io.epoll.ctl op fd (fd_ctx.events.add event) ctx fails
    let io := { io with epoll := r.2 }
    if r.1 = false then .ok (false, io)
    else if fd_ctx.getContext event ≠ .empty then .error .contextInUse
    else
      let event_ctx := EventContext.waiting scheduler fiber cb
      .ok (true,
        { io.store ctx
            ({ fd_ctx with events := fd_ctx.events.add event }.setContext event event_ctx) with
          pendingEventCount := io.pendingEventCount + 1 })

/-- `IOManager::delEvent` under the mutex of the context. -/
def delEvent (ctx fd : ℕ) (event : Event) (fails : Bool) : Bool × IOManager :=
  let fd_ctx := io.mem ctx
  if fd_ctx.events.test event then
    let new_events := fd_ctx.events.remove event
    let op := if new_events = .NONE then .DEL else .MOD
    let r := io.epoll.ctl op fd new_events ctx fails
    let io := { io with epoll := r.2 }
    if r.1 = false then (false, io)
    else
      (true,
        { io.store ctx ({ fd_ctx with events := new_events }.setContext event .empty) with
          pendingEventCount := io.pendingEventCount - 1 })
  else (false, io)

/-- `IOManager::cancelEvent` under the mutex of the context. -/
def cancelEvent (ctx fd : ℕ) (event : Event) (fails : Bool) : Except Abort (Bool × IOManager) :=
  let fd_ctx := io.mem ctx
  if fd_ctx.events.test event then
    let new_events := fd_ctx.events.remove event
    let op := if new_events = .NONE then .DEL else .MOD
    let r := io.epoll.ctl op fd new_events ctx fails
    let io := { io with epoll := r.2 }
    if r.1 = false then .ok (false, io)
    else (io.trigger ctx event).map fun io => (true, io)
  else .ok (false, io)

/-- The end of `IOManager::cancelAll`, once the descriptor is out of epoll. -/
def triggerAll (ctx : ℕ) : Except Abort (Bool × IOManager) := do
  let io ← io.triggerIf (io.mem ctx).events ctx .READ
  let io ← io.triggerIf (io.mem ctx).events ctx .WRITE
  if (io.mem ctx).events = .NONE then .ok (true, io) else .error .eventsLeft

/-- `IOManager::cancelAll` under the mutex of the context. -/
def cancelAll (ctx fd : ℕ) (fails : Bool) : Except Abort (Bool × IOManager) :=
  let fd_ctx := io.mem ctx
  if fd_ctx.events = .NONE then .ok (false, io)
  else
    let r := io.epoll.ctl .DEL fd .NONE ctx fails
    let io := { io with epoll := r.2 }
    if r.1 = false then .ok (false, io) else io.triggerAll ctx

/-- The events a record stands for, `real_events`: an error or a hang-up stands for everything
that is registered. -/
def realEvents (event : EpollEvent) : Events :=
  if event.err then event.events.union (io.mem event.ptr).events else event.events

/-- The end of the loop body of `IOManager::idle`, once epoll has the events that are left. -/
def triggerReal (real_events : Events) (ctx : ℕ) : Except Abort IOManager := do
  let io ← io.triggerIf real_events ctx .READ
  io.triggerIf real_events ctx .WRITE

/-- The body of the event loop of `IOManager::idle`, for a record that is not the tickle pipe's. -/
def handleEvent (event : EpollEvent) (fails : Bool) : Except Abort IOManager :=
  let fd_ctx := io.mem event.ptr
  let real_events := io.realEvents event
  if fd_ctx.events.inter real_events = .NONE then .ok io
  else
    let left_events := fd_ctx.events.diff real_events
    let op := if left_events = .NONE then .DEL else .MOD
    let r := io.epoll.ctl op fd_ctx.fd left_events event.ptr fails
    let io := { io with epoll := r.2 }
    if r.1 = false then .ok io else io.triggerReal real_events event.ptr

end IOManager

end Muhui
