/-
  The hooked `close` of `hook.cc`, and `do_io` on the descriptor it closes.

  One thread closes the descriptor: it asks the `FdManager`, runs `cancelAll` on its own
  `IOManager`, deletes the entry and closes the descriptor, with the steps of everybody else in
  between.  Any number of fibers are in `do_io` on the same descriptor, each on an `IOManager` of
  its own choice.  The other threads of the `IOManager`s do as they like with other descriptors;
  on this one they only call `cancelEvent`, as the callbacks of timers do.
-/
import Muhui.Hook.Wait
import Muhui.Descriptors.FdCtx

namespace Muhui

open Descriptors (FdCtx)

/-! ### The descriptors that are hooked -/

/-- `FdManager`: the `FdCtx` of each descriptor, as far as it has one. -/
structure FdManager where
  datas : List (Option FdCtx)

namespace FdManager

/-- `m_datas[fd]` -/
def slot (m : FdManager) (fd : ℕ) : Except Abort (Option FdCtx) :=
  match m.datas[fd]? with
  | some ctx => .ok ctx
  | none => .error .outOfBounds

/-- `FdManager::get(fd)`, which does not create anything. -/
def get (m : FdManager) (fd : ℕ) : Except Abort (Option FdCtx) :=
  if m.datas.length < fd then .ok none else m.slot fd

/-- `FdManager::del` -/
def del (m : FdManager) (fd : ℕ) : Except Abort FdManager :=
  if m.datas.length < fd then .ok m
  else (m.slot fd).map fun _ => { m with datas := m.datas.set fd none }

end FdManager

/-- `cancelEvent`, for whatever event. -/
def IOManager.Call.isCancelEvent : IOManager.Call → Bool
  | cancelEvent _ => true
  | _ => false

/-- A call of `close`: the descriptor, the calling thread, and its `IOManager::GetThis()`. -/
structure Close where
  fd : ℕ
  thread : ℕ
  iom : Option ℕ

namespace Close

/-- Where a fiber is in `do_io` on the descriptor; it runs on the `IOManager` `i`. -/
inductive ReaderPc
  | outside
  /-- Before the system call. -/
  | calling (i : ℕ) (event : Event)
  /-- The call has returned `EAGAIN`; before `addEvent`. -/
  | adding (i : ℕ) (event : Event)
  /-- In `addEvent`, on thread `t`. -/
  | registering (i : ℕ) (event : Event) (t : ℕ)
  /-- In `YieldToHold`. -/
  | parked (i : ℕ) (event : Event)
  deriving DecidableEq

/-- Where `close` is. -/
inductive CloserPc
  | start
  /-- Before the lookup of `cancelAll`. -/
  | cancelling
  /-- In `cancelAll`, before it takes the mutex of the context. -/
  | sweeping
  /-- Before `FdManager::del`. -/
  | deleting
  /-- Before `close_f`. -/
  | closing
  | returned
  deriving DecidableEq

structure System where
  /-- The `IOManager`s. -/
  iom : ℕ → IOManager.System
  fds : FdManager
  reader : ℕ → ReaderPc
  closer : CloserPc
  /-- Why the process has been stopped. -/
  aborted : Option Abort

inductive Step
  /-- A fiber calls `do_io` on `IOManager` `i`, up to its label `retry`. -/
  | enter (f i : ℕ) (event : Event)
  /-- The system call of `do_io` returns. -/
  | call (f : ℕ) (r : Outcome)
  /-- `addEvent` looks its context up, on thread `t`. -/
  | look (f t : ℕ)
  /-- `addEvent` resizes the table. -/
  | grow (f : ℕ)
  /-- `addEvent` runs under the mutex of the context. -/
  | register (f : ℕ) (fails : Bool)
  /-- A worker resumes the fiber, which tries again unless it has timed out. -/
  | wake (f : ℕ) (timeout : Bool)
  /-- `close` asks the `FdManager`. -/
  | get
  /-- `cancelAll` looks its context up. -/
  | find
  /-- `cancelAll` runs under the mutex of the context. -/
  | sweep (fails : Bool)
  /-- `FdManager::del` -/
  | del
  /-- `close_f` -/
  | close
  /-- Another thread of the `IOManager` `i`. -/
  | other (i : ℕ) (a : IOManager.Step)

/-- The call that `do_io` makes in fiber `f` on `IOManager` `i`; schedulers are named by their
`IOManager`. -/
def add (i f : ℕ) (event : Event) : IOManager.Call := .addEvent event none i f

/-- The task that resumes fiber `f` on `IOManager` `i`. -/
def resume (i f : ℕ) : Task := ⟨i, some f, none⟩

/-- What other threads do: anything with other descriptors, `cancelEvent` on this one. -/
def Foreign (fd : ℕ) (s : IOManager.System) : IOManager.Step → Bool
  | .call _ fd' c => fd' ≠ fd || c.isCancelEvent
  | .grow t =>
    match s.pc t with
    | .growing fd' _ => fd' ≠ fd
    | _ => true
  | .critical t _ =>
    match s.pc t with
    | .holding _ fd' c => fd' ≠ fd || c.isCancelEvent
    | _ => true
  | .wait .. | .handle .. => true
  | .close fd' => fd' ≠ fd

namespace System

/-- `IOManager` `i` has taken a step. -/
def setIom (s : System) (i : ℕ) (io : IOManager.System) : System :=
  { s with iom := Function.update s.iom i io, aborted := io.aborted }

/-- Fiber `f` moves. -/
def setReader (s : System) (f : ℕ) (pc : ReaderPc) : System :=
  { s with reader := Function.update s.reader f pc }

/-- A step of a process that has not been stopped. -/
def step (c : Close) (s : System) : Step → Option System
  | .enter f i event =>
    if s.reader f = .outside then
      match s.fds.get c.fd with
      | .error a => some { s with aborted := some a }
      | .ok none => some s
      | .ok (some ctx) =>
        if ctx.m_isClosed || !ctx.m_isSocket || ctx.m_userNonblock then some s
        else some (s.setReader f (.calling i event))
    else none
  | .call f r =>
    match s.reader f with
    | .calling i event =>
      -- on a closed descriptor the call fails with `EBADF`
      if r = .EAGAIN ∧ s.closer = .returned then none
      else
        some (s.setReader f
          (match r with
          | .done => .outside
          | .EINTR => .calling i event
          | .EAGAIN => .adding i event))
    | _ => none
  | .look f t =>
    match s.reader f with
    | .adding i event =>
      ((s.iom i).next (.call t c.fd (add i f event))).map fun io =>
        (s.setIom i io).setReader f (.registering i event t)
    | _ => none
  | .grow f =>
    match s.reader f with
    | .registering i _ t => ((s.iom i).next (.grow t)).map (s.setIom i)
    | _ => none
  | .register f fails =>
    match s.reader f with
    | .registering i event t =>
      -- so does `epoll_ctl`
      if s.closer = .returned ∧ fails = false then none
      else
        ((s.iom i).next (.critical t fails)).map fun io =>
          (s.setIom i io).setReader f
            (if (s.iom i).returns t fails then .parked i event else .outside)
    | _ => none
  | .wake f timeout =>
    match s.reader f with
    | .parked i event =>
      if resume i f ∈ (s.iom i).io.scheduled then
        some ((s.setIom i ((s.iom i).take (resume i f))).setReader f
          (if timeout then .outside else .calling i event))
      else none
    | _ => none
  | .get =>
    if s.closer = .start then
      match s.fds.get c.fd with
      | .error a => some { s with aborted := some a }
      | .ok none => some { s with closer := .closing }
      | .ok (some _) => some { s with closer := if c.iom.isSome then .cancelling else .deleting }
    else none
  | .find =>
    match s.closer, c.iom with
    | .cancelling, some i =>
      ((s.iom i).next (.call c.thread c.fd .cancelAll)).map fun io =>
        { s.setIom i io with
          closer := if ((s.iom i).io.fdContexts[c.fd]?).isSome then .sweeping else .deleting }
    | _, _ => none
  | .sweep fails =>
    match s.closer, c.iom with
    | .sweeping, some i =>
      ((s.iom i).next (.critical c.thread fails)).map fun io =>
        { s.setIom i io with closer := .deleting }
    | _, _ => none
  | .del =>
    if s.closer = .deleting then
      match s.fds.del c.fd with
      | .error a => some { s with aborted := some a }
      | .ok fds => some { s with fds := fds, closer := .closing }
    else none
  | .close =>
    if s.closer = .closing then
      some { s with
        iom := fun i => { s.iom i with io := (s.iom i).io.forget c.fd }
        closer := .returned }
    else none
  | .other i a =>
    if Foreign c.fd (s.iom i) a then ((s.iom i).next a).map (s.setIom i) else none

def next (c : Close) (s : System) (a : Step) : Option System :=
  if s.aborted.isSome then none else s.step c a

/-- Nobody is in `do_io` or `close` yet, and the `IOManager`s are new. -/
def init (fds : FdManager) : System :=
  { iom := fun _ => .init, fds := fds, reader := fun _ => .outside, closer := .start,
    aborted := none }

/-! ### What a step can do -/

/-- The steps, one constructor for each kind. -/
inductive Next (c : Close) (s : System) : Step → System → Prop
  | stopped (a : Step) (e : Abort) : Next c s a { s with aborted := some e }
  | idle (f i : ℕ) (event : Event) : Next c s (.enter f i event) s
  | entered (f i : ℕ) (event : Event) (hreader : s.reader f = .outside) :
    Next c s (.enter f i event) (s.setReader f (.calling i event))
  | called (f i : ℕ) (event : Event) (r : Outcome) (pc : ReaderPc)
      (hreader : s.reader f = .calling i event)
      (hpc : pc = .outside ∨ pc = .calling i event ∨ pc = .adding i event) :
    Next c s (.call f r) (s.setReader f pc)
  | looked (f i t : ℕ) (event : Event) (io : IOManager.System)
      (hreader : s.reader f = .adding i event)
      (hnext : (s.iom i).next (.call t c.fd (add i f event)) = some io) :
    Next c s (.look f t) ((s.setIom i io).setReader f (.registering i event t))
  | grown (f i t : ℕ) (event : Event) (io : IOManager.System)
      (hreader : s.reader f = .registering i event t)
      (hnext : (s.iom i).next (.grow t) = some io) : Next c s (.grow f) (s.setIom i io)
  | registered (f i t : ℕ) (event : Event) (fails : Bool) (io : IOManager.System)
      (hreader : s.reader f = .registering i event t)
      (hclosed : s.closer = .returned → fails = true)
      (hnext : (s.iom i).next (.critical t fails) = some io) :
    Next c s (.register f fails) ((s.setIom i io).setReader f
      (if (s.iom i).returns t fails then .parked i event else .outside))
  | woken (f i : ℕ) (event : Event) (timeout : Bool) (pc : ReaderPc)
      (hreader : s.reader f = .parked i event) (hpc : pc = .outside ∨ pc = .calling i event)
      (hmem : resume i f ∈ (s.iom i).io.scheduled) :
    Next c s (.wake f timeout)
      ((s.setIom i ((s.iom i).take (resume i f))).setReader f pc)
  | got (pc : CloserPc) (hcloser : s.closer = .start)
      (hpc : pc = .cancelling ∨
        ((s.fds.get c.fd = .ok none ∨ c.iom = none) ∧ (pc = .deleting ∨ pc = .closing))) :
    Next c s .get { s with closer := pc }
  | found (i : ℕ) (io : IOManager.System) (hcloser : s.closer = .cancelling)
      (hiom : c.iom = some i)
      (hnext : (s.iom i).next (.call c.thread c.fd .cancelAll) = some io) :
    Next c s .find { s.setIom i io with
      closer := if ((s.iom i).io.fdContexts[c.fd]?).isSome then .sweeping else .deleting }
  | swept (i : ℕ) (fails : Bool) (io : IOManager.System) (hcloser : s.closer = .sweeping)
      (hiom : c.iom = some i) (hnext : (s.iom i).next (.critical c.thread fails) = some io) :
    Next c s (.sweep fails) { s.setIom i io with closer := .deleting }
  | deleted (fds : FdManager) (hcloser : s.closer = .deleting) :
    Next c s .del { s with fds := fds, closer := .closing }
  | closed (hcloser : s.closer = .closing) :
    Next c s .close { s with
      iom := fun i => { s.iom i with io := (s.iom i).io.forget c.fd }
      closer := .returned }
  | others (i : ℕ) (a : IOManager.Step) (io : IOManager.System)
      (ha : Foreign c.fd (s.iom i) a = true) (hnext : (s.iom i).next a = some io) :
    Next c s (.other i a) (s.setIom i io)

/-- **Inversion of a step.** -/
theorem Next.of_next {c : Close} {s s' : System} {a : Step} (h : s.next c a = some s') :
    Next c s a s' := by
  unfold System.next at h
  split at h
  · cases h
  cases a with
  | enter f i event =>
    simp only [System.step] at h
    split_ifs at h with hreader
    split at h
    next e _ => exact Option.some.inj h ▸ .stopped _ e
    next => exact Option.some.inj h ▸ .idle f i event
    next ctx =>
      split_ifs at h
      · exact Option.some.inj h ▸ .idle f i event
      · exact Option.some.inj h ▸ .entered f i event hreader
  | call f r =>
    simp only [System.step] at h
    split at h
    next i event hreader =>
      split_ifs at h
      refine Option.some.inj h ▸ .called f i event r _ hreader ?_
      cases r <;> simp
    next => cases h
  | look f t =>
    simp only [System.step] at h
    split at h
    next i event hreader =>
      obtain ⟨io, hnext, rfl⟩ := Option.map_eq_some_iff.mp h
      exact .looked f i t event io hreader hnext
    next => cases h
  | grow f =>
    simp only [System.step] at h
    split at h
    next i event t hreader =>
      obtain ⟨io, hnext, rfl⟩ := Option.map_eq_some_iff.mp h
      exact .grown f i t event io hreader hnext
    next => cases h
  | register f fails =>
    simp only [System.step] at h
    split at h
    next i event t hreader =>
      split at h
      · cases h
      next hclosed =>
      obtain ⟨io, hnext, rfl⟩ := Option.map_eq_some_iff.mp h
      refine .registered f i t event fails io hreader (fun hret => ?_) hnext
      by_contra hfails
      exact hclosed ⟨hret, Bool.eq_false_iff.mpr hfails⟩
    next => cases h
  | wake f timeout =>
    simp only [System.step] at h
    split at h
    next i event hreader =>
      split at h
      next hmem =>
        refine Option.some.inj h ▸ .woken f i event timeout _ hreader ?_ hmem
        cases timeout <;> simp
      next => cases h
    next => cases h
  | get =>
    simp only [System.step] at h
    split at h
    swap
    · cases h
    next hcloser =>
    split at h
    next e _ => exact Option.some.inj h ▸ .stopped _ e
    next hget =>
      exact Option.some.inj h ▸ .got _ hcloser (Or.inr ⟨Or.inl hget, Or.inr rfl⟩)
    next ctx hget =>
      refine Option.some.inj h ▸ .got _ hcloser ?_
      cases hiom : c.iom <;> simp
  | find =>
    simp only [System.step] at h
    split at h
    next i hcloser hiom =>
      obtain ⟨io, hnext, rfl⟩ := Option.map_eq_some_iff.mp h
      exact .found i io hcloser hiom hnext
    next => cases h
  | sweep fails =>
    simp only [System.step] at h
    split at h
    next i hcloser hiom =>
      obtain ⟨io, hnext, rfl⟩ := Option.map_eq_some_iff.mp h
      exact .swept i fails io hcloser hiom hnext
    next => cases h
  | del =>
    simp only [System.step] at h
    split_ifs at h with hcloser
    split at h
    next e _ => exact Option.some.inj h ▸ .stopped _ e
    next fds _ => exact Option.some.inj h ▸ .deleted fds hcloser
  | close =>
    simp only [System.step] at h
    split_ifs at h with hcloser
    exact Option.some.inj h ▸ .closed hcloser
  | other i a =>
    simp only [System.step] at h
    split_ifs at h with ha
    obtain ⟨io, hnext, rfl⟩ := Option.map_eq_some_iff.mp h
    exact .others i a io ha hnext

end System

end Close

end Muhui
