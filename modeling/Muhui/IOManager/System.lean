/-
  An `IOManager` and the threads that use it.

  A thread calls `addEvent`, `delEvent`, `cancelEvent` or `cancelAll`, or it is in the event loop
  of `idle`.  Every lookup, resize and critical section is one step, and the steps of the threads
  interleave freely.  The events of a record are those that were ready and registered when
  `epoll_wait` returned; by the time the loop handles the record they may not be.
-/
import Muhui.IOManager.Operations
import Muhui.Transition.Run

namespace Muhui.IOManager

/-- A call with its arguments apart from the descriptor.  `scheduler` and `fiber` are those of the
calling thread. -/
inductive Call
  | addEvent (event : Event) (cb : Option ℕ) (scheduler fiber : ℕ)
  | delEvent (event : Event)
  | cancelEvent (event : Event)
  | cancelAll
  deriving DecidableEq

/-- Where a thread is. -/
inductive Pc
  /-- Outside of the functions modelled here. -/
  | outside
  /-- In `addEvent`, after it has found the table too short and before it takes the write lock. -/
  | growing (fd : ℕ) (c : Call)
  /-- In a call, with the context in hand and before it takes the mutex of the context. -/
  | holding (ctx fd : ℕ) (c : Call)
  /-- In the event loop, with the records left to handle. -/
  | polling (events : List EpollEvent)
  deriving DecidableEq

/-- In a call. -/
def Pc.busy : Pc → Bool
  | growing .. | holding .. => true
  | outside | polling _ => false

/-- What a call does under the mutex of the context. -/
def Call.run (io : IOManager) (ctx fd : ℕ) (fails : Bool) : Call → Except Abort (Bool × IOManager)
  | addEvent event cb scheduler fiber =>
    io.addEvent ctx fd event cb (some scheduler) fiber fails
  | delEvent event => .ok (io.delEvent ctx fd event fails)
  | cancelEvent event => io.cancelEvent ctx fd event fails
  | cancelAll => io.cancelAll ctx fd fails

/-- The record that `epoll_wait` fills in for a descriptor, given the ready bits among those of
its interest mask. -/
def record (ep : Epoll) (ready : ℕ × Events × Bool) : Option EpollEvent :=
  match ep.interest ready.1 with
  | none => none
  | some (mask, ptr) =>
    if ready.2.1.inter mask = ready.2.1 then some ⟨ready.2.1, ready.2.2, ptr⟩ else none

/-- What `epoll_wait` can return: at most 256 records of different descriptors. -/
def epollWait (ep : Epoll) (ready : List (ℕ × Events × Bool)) : Option (List EpollEvent) :=
  if ready.length ≤ 256 ∧ (ready.map Prod.fst).Nodup ∧ ready.all fun r => (record ep r).isSome then
    some (ready.filterMap (record ep))
  else none

structure System where
  io : IOManager
  pc : ℕ → Pc
  aborted : Option Abort

inductive Step
  /-- A thread calls a function on `fd` and looks the context up under the read lock. -/
  | call (t fd : ℕ) (c : Call)
  /-- `addEvent` resizes the table under the write lock. -/
  | grow (t : ℕ)
  /-- A call runs under the mutex of its context. -/
  | critical (t : ℕ) (fails : Bool)
  /-- `epoll_wait` returns in a thread that is in `idle`. -/
  | wait (t : ℕ) (ready : List (ℕ × Events × Bool))
  /-- The event loop handles its next record. -/
  | handle (t : ℕ) (fails : Bool)
  /-- The descriptor is closed; the kernel forgets its registration. -/
  | close (fd : ℕ)

/-- The thread that takes a step. -/
def Step.thread : Step → Option ℕ
  | call t _ _ | grow t | critical t _ | wait t _ | handle t _ => some t
  | close _ => none

namespace System

/-- The state after the constructor. -/
def init : System := { io := .new, pc := fun _ => .outside, aborted := none }

/-- The thread `t` moves to `pc`, and the `IOManager` to `io`. -/
def move (s : System) (t : ℕ) (pc : Pc) (io : IOManager) : System :=
  { s with io := io, pc := Function.update s.pc t pc }

/-- A worker takes a task out of the queue of its scheduler. -/
def take (s : System) (task : Task) : System :=
  { s with io := { s.io with scheduled := s.io.scheduled.erase task } }

def next (s : System) (a : Step) : Option System :=
  if s.aborted.isSome then none
  else
    match a with
    | .call t fd c =>
      if s.pc t = .outside then
        match s.io.fdContexts[fd]?, c with
        | some ctx, c => some (s.move t (.holding ctx fd c) s.io)
        | none, .addEvent .. => some (s.move t (.growing fd c) s.io)
        | none, _ => some s
      else none
    | .grow t =>
      match s.pc t with
      | .growing fd c =>
        let io := s.io.contextResize (growTarget fd)
        match io.fdContexts[fd]? with
        | some ctx => some (s.move t (.holding ctx fd c) io)
        | none => some { s with io := io, aborted := some .outOfBounds }
      | _ => none
    | .critical t fails =>
      match s.pc t with
      | .holding ctx fd c =>
        match c.run s.io ctx fd fails with
        | .error a => some { s with aborted := some a }
        | .ok r => some (s.move t .outside r.2)
      | _ => none
    | .wait t ready =>
      if s.pc t = .outside then
        (epollWait s.io.epoll ready).map fun events => s.move t (.polling events) s.io
      else none
    | .handle t fails =>
      match s.pc t with
      | .polling [] => some (s.move t .outside s.io)
      | .polling (event :: events) =>
        match s.io.handleEvent event fails with
        | .error a => some { s with aborted := some a }
        | .ok io => some (s.move t (.polling events) io)
      | _ => none
    | .close fd => some { s with io := s.io.forget fd }

/-- What the call of the thread `t` returns when it runs under the mutex of its context. -/
def returns (s : System) (t : ℕ) (fails : Bool) : Bool :=
  match s.pc t with
  | .holding ctx fd c =>
    match c.run s.io ctx fd fails with
    | .ok (b, _) => b
    | .error _ => false
  | _ => false

/-! ### What a step can do -/


/-- The steps, one constructor for each outcome. -/
inductive Next (s : System) : Step → System → Prop
  | found (t fd : ℕ) (c : Call) (ctx : ℕ) (hpc : s.pc t = .outside)
      (hctx : s.io.fdContexts[fd]? = some ctx) :
    Next s (.call t fd c) (s.move t (.holding ctx fd c) s.io)
  | missing (t fd : ℕ) (event : Event) (cb : Option ℕ) (scheduler fiber : ℕ)
      (hpc : s.pc t = .outside) (hctx : s.io.fdContexts[fd]? = none) :
    Next s (.call t fd (.addEvent event cb scheduler fiber))
      (s.move t (.growing fd (.addEvent event cb scheduler fiber)) s.io)
  | refused (t fd : ℕ) (c : Call) (hpc : s.pc t = .outside)
      (hctx : s.io.fdContexts[fd]? = none)
      (hc : ∀ event cb scheduler fiber, c = .addEvent event cb scheduler fiber → False) :
    Next s (.call t fd c) s
  | grown (t fd : ℕ) (c : Call) (ctx : ℕ) (hpc : s.pc t = .growing fd c)
      (hctx : (s.io.contextResize (growTarget fd)).fdContexts[fd]? = some ctx) :
    Next s (.grow t) (s.move t (.holding ctx fd c) (s.io.contextResize (growTarget fd)))
  | outOfBounds (t fd : ℕ) (c : Call) (hpc : s.pc t = .growing fd c)
      (hctx : (s.io.contextResize (growTarget fd)).fdContexts[fd]? = none) :
    Next s (.grow t)
      { s with io := s.io.contextResize (growTarget fd), aborted := some .outOfBounds }
  | returned (t ctx fd : ℕ) (c : Call) (fails b : Bool) (io : IOManager)
      (hpc : s.pc t = .holding ctx fd c) (hrun : c.run s.io ctx fd fails = .ok (b, io)) :
    Next s (.critical t fails) (s.move t .outside io)
  | asserted (t ctx fd : ℕ) (c : Call) (fails : Bool) (a : Abort)
      (hpc : s.pc t = .holding ctx fd c) (hrun : c.run s.io ctx fd fails = .error a) :
    Next s (.critical t fails) { s with aborted := some a }
  | waited (t : ℕ) (ready : List (ℕ × Events × Bool)) (events : List EpollEvent)
      (hpc : s.pc t = .outside) (hevents : epollWait s.io.epoll ready = some events) :
    Next s (.wait t ready) (s.move t (.polling events) s.io)
  | finished (t : ℕ) (fails : Bool) (hpc : s.pc t = .polling []) :
    Next s (.handle t fails) (s.move t .outside s.io)
  | handled (t : ℕ) (event : EpollEvent) (events : List EpollEvent) (fails : Bool)
      (io : IOManager) (hpc : s.pc t = .polling (event :: events))
      (hrun : s.io.handleEvent event fails = .ok io) :
    Next s (.handle t fails) (s.move t (.polling events) io)
  | failed (t : ℕ) (event : EpollEvent) (events : List EpollEvent) (fails : Bool) (a : Abort)
      (hpc : s.pc t = .polling (event :: events))
      (hrun : s.io.handleEvent event fails = .error a) :
    Next s (.handle t fails) { s with aborted := some a }
  | closed (fd : ℕ) : Next s (.close fd) { s with io := s.io.forget fd }

/-- **Inversion of a step.** -/
theorem Next.of_next {s s' : System} {a : Step} (h : s.next a = some s') :
    s.aborted = none ∧ Next s a s' := by
  unfold System.next at h
  split at h
  · cases h
  next hlive =>
  refine ⟨Option.not_isSome_iff_eq_none.mp hlive, ?_⟩
  cases a with
  | call t fd c =>
    simp only at h
    split_ifs at h with hpc
    split at h
    next ctx hctx =>
      obtain rfl := Option.some.inj h
      exact .found t fd _ ctx hpc hctx
    next hctx =>
      obtain rfl := Option.some.inj h
      exact .missing t fd _ _ _ _ hpc hctx
    next hctx hc =>
      obtain rfl := Option.some.inj h
      exact .refused t fd _ hpc hctx hc
  | grow t =>
    simp only at h
    split at h
    next fd c hpc =>
      split at h
      next ctx hctx =>
        obtain rfl := Option.some.inj h
        exact .grown t fd c ctx hpc hctx
      next hctx =>
        obtain rfl := Option.some.inj h
        exact .outOfBounds t fd c hpc hctx
    next => cases h
  | critical t fails =>
    simp only at h
    split at h
    next ctx fd c hpc =>
      split at h
      next a hrun =>
        obtain rfl := Option.some.inj h
        exact .asserted t ctx fd c fails a hpc hrun
      next r hrun =>
        obtain rfl := Option.some.inj h
        exact .returned t ctx fd c fails r.1 r.2 hpc hrun
    next => cases h
  | wait t ready =>
    simp only at h
    split_ifs at h with hpc
    obtain ⟨events, hevents, rfl⟩ := Option.map_eq_some_iff.mp h
    exact .waited t ready events hpc hevents
  | handle t fails =>
    simp only at h
    split at h
    next hpc =>
      obtain rfl := Option.some.inj h
      exact .finished t fails hpc
    next event events hpc =>
      split at h
      next a hrun =>
        obtain rfl := Option.some.inj h
        exact .failed t event events fails a hpc hrun
      next io hrun =>
        obtain rfl := Option.some.inj h
        exact .handled t event events fails io hpc hrun
    next => cases h
  | close fd =>
    obtain rfl := Option.some.inj h
    exact .closed fd

theorem move_pc_self {s : System} {t : ℕ} {pc : Pc} {io : IOManager} :
    (s.move t pc io).pc t = pc := by
  simp [move]

theorem move_pc_of_ne {s : System} {t t' : ℕ} {pc : Pc} {io : IOManager} (h : t' ≠ t) :
    (s.move t pc io).pc t' = s.pc t' := by
  simp [move, h]

/-- A step leaves the other threads where they are. -/
theorem pc_next {s s' : System} {a : Step} (h : s.next a = some s') {t : ℕ}
    (ht : a.thread ≠ some t) : s'.pc t = s.pc t := by
  obtain ⟨-, h⟩ := Next.of_next h
  have hmove {t' : ℕ} {pc : Pc} {io : IOManager} (ht : some t' ≠ some t) :
      (s.move t' pc io).pc t = s.pc t := by
    apply move_pc_of_ne
    rintro rfl
    exact ht rfl
  cases h with
  | refused | outOfBounds | asserted | failed | closed => rfl
  | found | missing | grown | returned | waited | finished | handled => exact hmove ht

/-- A thread inside of a call stays where it is unless it takes the step itself. -/
theorem pc_next_of_busy {s s' : System} {a : Step} (h : s.next a = some s') {t : ℕ}
    (hbusy : (s.pc t).busy) (ha : (∃ t fd c, a = .call t fd c) ∨ (∃ t ready, a = .wait t ready) ∨
      ∃ t fails, a = .handle t fails) : s'.pc t = s.pc t := by
  refine pc_next h fun ht => ?_
  obtain ⟨-, h⟩ := Next.of_next h
  have hidle : (s.pc t).busy = false := by
    cases h <;> simp only [Step.thread, Option.some.injEq, reduceCtorEq] at ht ha <;> subst ht <;>
      simp_all [Pc.busy]
  rw [hidle] at hbusy
  cases hbusy

end System

end Muhui.IOManager
