/-
  What each critical section of an `IOManager` can do.

  `FdContext.Consistent` ties the bits of a context to its two event contexts.  On consistent
  contexts every section that finishes does one of two things (`Commits`): it leaves everything as
  it is, or it issues one `epoll_ctl` call whose operation fits the registered events, and when the
  call succeeds it writes one consistent context, adjusts the counter by the bits it set or cleared
  and hands the waiters of the cleared ones over (`Leaves`; only `delEvent` drops them).  The
  invariants of the bookkeeping are proved from `Commits` alone.
-/
import Mathlib.Tactic.Common
import Muhui.IOManager.Basic

namespace Muhui

/-! ### Masks -/

namespace Events

/-- The number of events in a mask. -/
def count (m : Events) : ℤ := (if m.read then 1 else 0) + (if m.write then 1 else 0)

/-- Every event of `m` is in `n`. -/
def Subset (m n : Events) : Prop := ∀ e, m.test e = true → n.test e = true

variable (m n : Events) (e e' : Event)

theorem test_remove : (m.remove e).test e' = (if e' = e then false else m.test e') := by
  cases e <;> cases e' <;> rfl

theorem test_add : (m.add e).test e' = (if e' = e then true else m.test e') := by
  cases e <;> cases e' <;> rfl

theorem add_ne_NONE : m.add e ≠ NONE := by
  cases e <;> simp [add, NONE]

variable {m n e}

theorem ne_NONE_of_test (h : m.test e = true) : m ≠ NONE := by
  rintro rfl
  cases e <;> cases h

theorem eq_NONE_iff : m = NONE ↔ ∀ e, m.test e = false := by
  obtain ⟨r, w⟩ := m
  constructor
  · rintro ⟨⟩ e
    cases e <;> rfl
  · intro h
    have hr : r = false := h .READ
    have hw : w = false := h .WRITE
    rw [hr, hw]
    rfl

theorem ne_NONE_of_inter (h : m.inter n ≠ NONE) : m ≠ NONE := by
  rintro rfl
  exact h rfl

theorem count_remove (h : m.test e = true) : (m.remove e).count = m.count - 1 := by
  obtain ⟨r, w⟩ := m
  cases e <;> cases r <;> cases w <;> first | rfl | cases h

theorem count_add (h : m.test e = false) : (m.add e).count = m.count + 1 := by
  obtain ⟨r, w⟩ := m
  cases e <;> cases r <;> cases w <;> first | rfl | cases h

theorem diff_eq_NONE_iff : m.diff n = NONE ↔ m.Subset n := by
  obtain ⟨r, w⟩ := m
  obtain ⟨r', w'⟩ := n
  constructor
  · intro h e he
    simp only [diff, NONE, Events.mk.injEq] at h
    cases e <;> cases r <;> cases w <;> cases r' <;> cases w' <;> simp_all [test]
  · intro h
    have hr := h .READ
    have hw := h .WRITE
    cases r <;> cases w <;> cases r' <;> cases w' <;> simp_all [test, diff, NONE]

theorem diff_self (m : Events) : m.diff m = NONE := diff_eq_NONE_iff.mpr fun _ => id

theorem inter_subset (m n : Events) : (m.inter n).Subset m := by
  obtain ⟨r, w⟩ := m
  intro e he
  cases e <;> simp_all [test, inter]

theorem diff_inter (m n : Events) : m.diff (m.inter n) = m.diff n := by
  obtain ⟨r, w⟩ := m
  cases r <;> cases w <;> simp [diff, inter]

theorem diff_diff (h : n.Subset m) : m.diff (m.diff n) = n := by
  have hr := h .READ
  have hw := h .WRITE
  obtain ⟨r, w⟩ := m
  obtain ⟨r', w'⟩ := n
  cases r <;> cases w <;> cases r' <;> cases w' <;> simp_all [test, diff]

theorem diff_remove (h : m.test e = true) : m.diff (m.remove e) = NONE.add e := by
  obtain ⟨r, w⟩ := m
  cases e <;> cases r <;> cases w <;> simp_all [test, remove, diff, add, NONE]

theorem diff_add (m : Events) (e : Event) : m.diff (m.add e) = NONE := by
  obtain ⟨r, w⟩ := m
  cases e <;> cases r <;> cases w <;> rfl

end Events

/-! ### Contexts -/

/-- Somebody waits: a scheduler is set, and exactly one of fiber and callback. -/
def EventContext.Armed (ctx : EventContext) : Prop :=
  ctx.scheduler.isSome = true ∧ ctx.fiber.isSome ≠ ctx.cb.isSome

instance (ctx : EventContext) : Decidable ctx.Armed :=
  inferInstanceAs (Decidable (_ ∧ _))

theorem EventContext.not_armed_empty : ¬ EventContext.empty.Armed := by decide

theorem EventContext.armed_waiting (scheduler fiber : ℕ) (cb : Option ℕ) :
    (EventContext.waiting (some scheduler) fiber cb).Armed := by
  cases cb <;> exact ⟨rfl, by simp [waiting]⟩

/-- The task `triggerEvent` makes of an event context. -/
def EventContext.tasks (ctx : EventContext) : List Task :=
  match ctx.scheduler with
  | none => []
  | some scheduler => [⟨scheduler, if ctx.cb.isSome then none else ctx.fiber, ctx.cb⟩]

namespace FdContext

/-- A registered event has somebody who waits for it, any other event context is empty. -/
def Consistent (c : FdContext) : Prop :=
  ∀ e, if c.events.test e then (c.getContext e).Armed else c.getContext e = .empty

/-- The context after `event` has been taken out. -/
def disarm (c : FdContext) (event : Event) : FdContext :=
  { c with events := c.events.remove event }.setContext event .empty

/-- The context after `event` has been taken out if the mask names it. -/
def disarmIf (c : FdContext) (mask : Events) (event : Event) : FdContext :=
  if mask.test event then c.disarm event else c

/-- The task of `event` if the mask names it. -/
def taskIf (c : FdContext) (mask : Events) (event : Event) : List Task :=
  if mask.test event then (c.getContext event).tasks else []

/-- The tasks of the events that are registered in `c` and no longer in `c'`. -/
def cleared (c c' : FdContext) : List Task :=
  c.taskIf (c.events.diff c'.events) .READ ++ c.taskIf (c.events.diff c'.events) .WRITE

/-- What a section is for. -/
inductive Effect
  /-- It puts one event in. -/
  | adds (e : Event) (ctx : EventContext)
  /-- It takes events out and hands their waiters over. -/
  | wakes
  /-- It takes events out and forgets their waiters. -/
  | drops

/-- The tasks that are made of the waiters of the events taken out. -/
def Effect.tasks : Effect → List Task → List Task
  | drops, _ => []
  | _, tasks => tasks

/-- What a section makes of a context: no event is new but the one it adds, and the others stay
with their waiters or are taken out. -/
structure Leaves (effect : Effect) (c c' : FdContext) (tasks : List Task) : Prop where
  consistent : c'.Consistent
  fd : c'.fd = c.fd
  kept : ∀ e, c.events.test e = true → c'.events.test e = true →
    c'.getContext e = c.getContext e
  new : ∀ e, c.events.test e = false → c'.events.test e = true →
    effect = .adds e (c'.getContext e)
  tasks : tasks = effect.tasks (c.cleared c')

variable {c : FdContext} {e e' : Event} {ctx : EventContext} {mask : Events}

@[simp] theorem setContext_events : (c.setContext e ctx).events = c.events := by
  cases e <;> rfl

@[simp] theorem setContext_fd : (c.setContext e ctx).fd = c.fd := by
  cases e <;> rfl

theorem getContext_setContext :
    (c.setContext e ctx).getContext e' = if e' = e then ctx else c.getContext e' := by
  cases e <;> cases e' <;> rfl

@[simp] theorem disarm_fd : (c.disarm e).fd = c.fd := setContext_fd

@[simp] theorem disarm_events : (c.disarm e).events = c.events.remove e := setContext_events

@[simp] theorem disarmIf_fd : (c.disarmIf mask e).fd = c.fd := by
  rw [disarmIf]
  split_ifs
  · exact disarm_fd
  · rfl

theorem disarmIf_events :
    (c.disarmIf mask e).events = if mask.test e then c.events.remove e else c.events := by
  rw [disarmIf]
  split_ifs
  · exact disarm_events
  · rfl

/-- Taking out both events of a mask. -/
theorem disarmIf_disarmIf_events (c : FdContext) (mask : Events) :
    ((c.disarmIf mask .READ).disarmIf mask .WRITE).events = c.events.diff mask := by
  obtain ⟨r, w⟩ := mask
  simp only [disarmIf_events, Events.test, Events.remove, Events.diff]
  cases r <;> cases w <;> simp

theorem disarmIf_READ_test_WRITE (c : FdContext) (mask : Events) :
    (c.disarmIf mask .READ).events.test .WRITE = c.events.test .WRITE := by
  rw [disarmIf_events]
  split_ifs <;> rfl

theorem Consistent.new (fd : ℕ) : (FdContext.new fd).Consistent := by
  intro e
  cases e <;> rfl

/-- Writing one event context and its bit keeps the others. -/
theorem Consistent.write (hc : c.Consistent) {events : Events}
    (hother : ∀ e', e' ≠ e → events.test e' = c.events.test e')
    (hself : if events.test e then ctx.Armed else ctx = .empty) :
    ({ c with events := events }.setContext e ctx).Consistent := by
  intro e'
  rw [setContext_events, getContext_setContext]
  by_cases he : e' = e
  · subst he
    simpa only [if_true] using hself
  · rw [if_neg he, hother e' he]
    exact hc e'

theorem Consistent.disarm (hc : c.Consistent) (e : Event) : (c.disarm e).Consistent := by
  refine hc.write (fun e' he => ?_) ?_
  · rw [Events.test_remove, if_neg he]
  · rw [Events.test_remove, if_pos rfl]
    rfl

theorem Consistent.disarmIf (hc : c.Consistent) (mask : Events) (e : Event) :
    (c.disarmIf mask e).Consistent := by
  rw [FdContext.disarmIf]
  split_ifs
  · exact hc.disarm e
  · exact hc

/-- `triggerEvent` fails its assertion on an event that is not registered. -/
theorem triggerEvent_of_not_test (h : c.events.test e = false) :
    c.triggerEvent e = .error .triggerEvent := by
  rw [triggerEvent, h]
  rfl

/-- `triggerEvent` on a registered event hands the waiter over, empties the event context and
clears the bit. -/
theorem Consistent.triggerEvent (hc : c.Consistent) (h : c.events.test e = true) :
    c.triggerEvent e = .ok ((c.getContext e).tasks, c.disarm e) := by
  have harmed := hc e
  rw [if_pos h] at harmed
  have hget : ({ c with events := c.events.remove e } : FdContext).getContext e =
      c.getContext e := by cases e <;> rfl
  rw [FdContext.triggerEvent, if_pos h]
  simp only [hget, FdContext.disarm]
  generalize c.getContext e = ctx at harmed
  obtain ⟨scheduler, fiber, cb⟩ := ctx
  obtain ⟨hscheduler, hone⟩ := harmed
  simp only at hscheduler
  obtain ⟨scheduler, rfl⟩ := Option.isSome_iff_exists.mp hscheduler
  cases fiber <;> cases cb
  · exact absurd rfl hone
  · rfl
  · rfl
  · exact absurd rfl hone

/-! ### What the sections leave of a context -/

theorem getContext_disarmIf :
    (c.disarmIf mask e).getContext e' =
      if e' = e ∧ mask.test e = true then .empty else c.getContext e' := by
  rw [disarmIf]
  by_cases hmask : mask.test e = true
  · rw [if_pos hmask, disarm, getContext_setContext]
    by_cases he : e' = e
    · rw [if_pos he, if_pos ⟨he, hmask⟩]
    · rw [if_neg he, if_neg fun h => he h.1]
      cases e' <;> rfl
  · rw [if_neg hmask, if_neg fun h => hmask h.2]

/-- Taking out the events of a mask, one after the other. -/
theorem Consistent.leaves_mask (hc : c.Consistent) (hmask : mask.Subset c.events) :
    Leaves .wakes c ((c.disarmIf mask .READ).disarmIf mask .WRITE)
      (c.taskIf mask .READ ++ (c.disarmIf mask .READ).taskIf mask .WRITE) where
  consistent := (hc.disarmIf mask .READ).disarmIf mask .WRITE
  fd := by rw [disarmIf_fd, disarmIf_fd]
  kept e _ hkept := by
    rw [disarmIf_disarmIf_events] at hkept
    rw [getContext_disarmIf, getContext_disarmIf]
    cases e <;> simp_all [Events.test, Events.diff]
  new e hold hnew := by
    rw [disarmIf_disarmIf_events] at hnew
    cases e <;> simp_all [Events.test, Events.diff]
  tasks := by
    have hdiff : c.events.diff (c.events.diff mask) = mask := Events.diff_diff hmask
    have hwrite : (c.disarmIf mask .READ).getContext .WRITE = c.getContext .WRITE := by
      rw [getContext_disarmIf, if_neg (by simp)]
    rw [cleared, disarmIf_disarmIf_events, hdiff, taskIf, taskIf, taskIf, hwrite]
    rfl

/-- Taking out one event, with or without handing its waiter over. -/
theorem Consistent.leaves_disarm (hc : c.Consistent) (h : c.events.test e = true)
    (effect : Effect) :
    Leaves effect c (c.disarm e) (effect.tasks (c.getContext e).tasks) where
  consistent := hc.disarm e
  fd := disarm_fd
  kept e' _ hkept := by
    rw [disarm_events, Events.test_remove] at hkept
    rw [FdContext.disarm, getContext_setContext]
    split_ifs at hkept ⊢
    cases e' <;> rfl
  new e' hold hnew := by
    rw [disarm_events, Events.test_remove, hold, ite_self] at hnew
    cases hnew
  tasks := by
    have hcleared : c.cleared (c.disarm e) = (c.getContext e).tasks := by
      rw [cleared, disarm_events, Events.diff_remove h]
      cases e <;> simp [taskIf, Events.test, Events.add, Events.NONE]
    rw [hcleared]

/-- Putting one event in. -/
theorem Consistent.leaves_add (hc : c.Consistent) (h : c.events.test e = false)
    (hctx : ctx.Armed) :
    Leaves (.adds e ctx) c ({ c with events := c.events.add e }.setContext e ctx) [] where
  consistent := by
    refine hc.write (fun e' he => ?_) ?_
    · rw [Events.test_add, if_neg he]
    · rw [Events.test_add, if_pos rfl]
      exact hctx
  fd := setContext_fd
  kept e' hold _ := by
    have hne : e' ≠ e := by
      rintro rfl
      rw [h] at hold
      cases hold
    rw [getContext_setContext, if_neg hne]
    cases e' <;> rfl
  new e' hold hnew := by
    rw [setContext_events, Events.test_add] at hnew
    by_cases he : e' = e
    · rw [he, getContext_setContext, if_pos rfl]
    · rw [if_neg he, hold] at hnew
      cases hnew
  tasks := by
    rw [cleared, setContext_events, Events.diff_add]
    rfl

/-- Each event context is as it was, or empty, or the one that is added. -/
theorem Leaves.getContext {c c' : FdContext} {effect : Effect} {tasks : List Task}
    (h : Leaves effect c c' tasks) (e : Event) :
    c'.getContext e = c.getContext e ∨ c'.getContext e = .empty ∨
      effect = .adds e (c'.getContext e) := by
  have hcons := h.consistent e
  by_cases hnew : c'.events.test e = true
  · by_cases hold : c.events.test e = true
    · exact Or.inl (h.kept e hold hnew)
    · exact Or.inr (Or.inr (h.new e (Bool.eq_false_iff.mpr hold) hnew))
  · rw [if_neg hnew] at hcons
    exact Or.inr (Or.inl hcons)

end FdContext

/-! ### One step of the bookkeeping -/

namespace EpollCtlOp

/-- The operation that takes the registration of a descriptor from mask `m` to mask `n`. -/
def Fits (op : EpollCtlOp) (m n : Events) : Prop :=
  match op with
  | ADD => m = .NONE ∧ n ≠ .NONE
  | MOD => m ≠ .NONE ∧ n ≠ .NONE
  | DEL => m ≠ .NONE ∧ n = .NONE

theorem fits_add (m : Events) (e : Event) :
    (if m = .NONE then ADD else MOD).Fits m (m.add e) := by
  split_ifs with h
  · exact ⟨h, m.add_ne_NONE e⟩
  · exact ⟨h, m.add_ne_NONE e⟩

theorem fits_del {m : Events} (h : m ≠ .NONE) : DEL.Fits m .NONE := ⟨h, rfl⟩

theorem fits_left {m n : Events} (h : m ≠ .NONE) :
    (if n = .NONE then DEL else MOD).Fits m n := by
  split_ifs with hn
  · exact ⟨h, hn⟩
  · exact ⟨h, hn⟩

end EpollCtlOp

namespace IOManager

variable {io io' : IOManager} {ctx fd : ℕ} {event : Event} {fails b : Bool}
  {effect : FdContext.Effect}

/-- Writes the context `c` at `ctx`, adjusts the counter by the bits that changed and hands the
tasks over. -/
def put (io : IOManager) (ctx : ℕ) (c : FdContext) (tasks : List Task) : IOManager :=
  { io with
    mem := Function.update io.mem ctx c
    pendingEventCount := io.pendingEventCount + (c.events.count - (io.mem ctx).events.count)
    scheduled := io.scheduled ++ tasks }

@[simp] theorem put_mem_self {c : FdContext} {tasks : List Task} :
    (io.put ctx c tasks).mem ctx = c := by
  simp [put]

/-- `put` when the number of registered events is known to change by `d`. -/
theorem put_eq {c : FdContext} {tasks : List Task} {d : ℤ}
    (hd : c.events.count = (io.mem ctx).events.count + d) :
    io.put ctx c tasks =
      { io.store ctx c with
        pendingEventCount := io.pendingEventCount + d
        scheduled := io.scheduled ++ tasks } := by
  have hcount : c.events.count - (io.mem ctx).events.count = d := by omega
  rw [put, hcount]
  rfl

theorem put_put {c c' : FdContext} {tasks tasks' : List Task} :
    (io.put ctx c tasks).put ctx c' tasks' = io.put ctx c' (tasks ++ tasks') := by
  have hcount : io.pendingEventCount + (c.events.count - (io.mem ctx).events.count) +
      (c'.events.count - c.events.count) =
      io.pendingEventCount + (c'.events.count - (io.mem ctx).events.count) := by omega
  simp [put, Function.update_idem, hcount]

/-- What the section of a call that returns `b` does to the context `ctx` of the descriptor
`fd`. -/
def Commits (io : IOManager) (ctx fd : ℕ) (effect : FdContext.Effect) (fails b : Bool)
    (io' : IOManager) : Prop :=
  (b = false ∧ io' = io) ∨
    ∃ op c tasks, (io.mem ctx).Leaves effect c tasks ∧ op.Fits (io.mem ctx).events c.events ∧
      (io.epoll.ctl op fd c.events ctx fails).1 = b ∧
      io' =
        if b then
          { io.put ctx c tasks with epoll := (io.epoll.ctl op fd c.events ctx fails).2 }
        else { io with epoll := (io.epoll.ctl op fd c.events ctx fails).2 }

/-- `trigger` on a registered event. -/
theorem trigger_eq (io : IOManager) (hc : (io.mem ctx).Consistent)
    (h : (io.mem ctx).events.test event = true) :
    io.trigger ctx event =
      .ok (io.put ctx ((io.mem ctx).disarm event) ((io.mem ctx).getContext event).tasks) := by
  have hcount : ((io.mem ctx).disarm event).events.count = (io.mem ctx).events.count + -1 := by
    rw [FdContext.disarm_events, Events.count_remove h]
    rfl
  rw [trigger, hc.triggerEvent h, put_eq hcount]
  rfl

/-- `triggerIf` on a mask whose events are registered. -/
theorem triggerIf_eq (io : IOManager) (mask : Events) (event : Event)
    (hc : (io.mem ctx).Consistent)
    (h : mask.test event = true → (io.mem ctx).events.test event = true) :
    io.triggerIf mask ctx event =
      .ok (io.put ctx ((io.mem ctx).disarmIf mask event) ((io.mem ctx).taskIf mask event)) := by
  rw [triggerIf, FdContext.disarmIf, FdContext.taskIf]
  split_ifs with hmask
  · exact trigger_eq io hc (h hmask)
  · simp [put]

/-- `triggerIf` on an event that is not registered fails the assertion. -/
theorem triggerIf_error {mask : Events} (hmask : mask.test event = true)
    (h : (io.mem ctx).events.test event = false) :
    io.triggerIf mask ctx event = .error .triggerEvent := by
  rw [triggerIf, if_pos hmask, trigger, FdContext.triggerEvent_of_not_test h]

/-- A call that changes or ends a registration. -/
theorem ctl_left {ep : Epoll} {m n : Events} {op : EpollCtlOp} (hfits : op.Fits m n)
    (hm : m ≠ .NONE) :
    (ep.ctl op fd n ctx fails).1 = (!fails && (ep.interest fd).isSome) := by
  unfold Epoll.ctl
  cases op with
  | ADD => exact absurd hfits.1 hm
  | MOD | DEL => cases fails <;> cases hreg : (ep.interest fd).isSome <;> rfl

/-- Whatever the call returns, a failed `epoll_ctl` changes no registration. -/
theorem ctl_interest_of_fails {ep : Epoll} {op : EpollCtlOp} {events : Events}
    (h : (ep.ctl op fd events ctx fails).1 = false) :
    (ep.ctl op fd events ctx fails).2.interest = ep.interest := by
  unfold Epoll.ctl at h ⊢
  cases fails <;> cases op <;> cases hreg : (ep.interest fd).isSome <;> simp_all

/-- **A call that reports failure** leaves contexts, counter and registrations as they are. -/
theorem Commits.of_fails (h : Commits io ctx fd effect fails false io') :
    io'.mem = io.mem ∧ io'.pendingEventCount = io.pendingEventCount ∧
      io'.epoll.interest = io.epoll.interest := by
  rcases h with ⟨-, rfl⟩ | ⟨op, c, tasks, -, -, hctl, rfl⟩
  · exact ⟨rfl, rfl, rfl⟩
  · exact ⟨rfl, rfl, ctl_interest_of_fails hctl⟩

/-- **A section writes at most one context**, and queues the tasks that go with it. -/
theorem Commits.writes (h : Commits io ctx fd effect fails b io') :
    io'.fdContexts = io.fdContexts ∧ io'.created = io.created ∧
      ((io'.mem = io.mem ∧ io'.scheduled = io.scheduled) ∨
        ∃ c tasks, (io.mem ctx).Leaves effect c tasks ∧
          io'.mem = Function.update io.mem ctx c ∧ io'.scheduled = io.scheduled ++ tasks) := by
  rcases h with ⟨-, rfl⟩ | ⟨op, c, tasks, hleaves, -, -, rfl⟩
  · exact ⟨rfl, rfl, Or.inl ⟨rfl, rfl⟩⟩
  · cases b
    · exact ⟨rfl, rfl, Or.inl ⟨rfl, rfl⟩⟩
    · exact ⟨rfl, rfl, Or.inr ⟨c, tasks, hleaves, rfl, rfl⟩⟩

/-- A call that reports success has not been failed by the kernel. -/
theorem Commits.not_fails (h : Commits io ctx fd effect fails true io') : fails = false := by
  rcases h with ⟨hb, -⟩ | ⟨op, c, tasks, -, -, hctl, -⟩
  · cases hb
  · cases fails
    · rfl
    · cases hctl

/-- The two ways a section that reaches `epoll_ctl` ends. -/
theorem Commits.of_ctl {op : EpollCtlOp} {c : FdContext} {events : Events}
    {tasks : List Task} (hleaves : (io.mem ctx).Leaves effect c tasks) (hevents : c.events = events)
    (hfits : op.Fits (io.mem ctx).events events)
    (hctl : (io.epoll.ctl op fd events ctx fails).1 = b)
    (hio : io' =
      if b then { io.put ctx c tasks with epoll := (io.epoll.ctl op fd events ctx fails).2 }
      else { io with epoll := (io.epoll.ctl op fd events ctx fails).2 }) :
    Commits io ctx fd effect fails b io' := by
  subst hevents
  exact Or.inr ⟨op, c, tasks, hleaves, hfits, hctl, hio⟩

/-- **`addEvent`** registers one event with its event context, or fails. -/
theorem addEvent_commits {cb : Option ℕ} {scheduler fiber : ℕ} (hc : (io.mem ctx).Consistent)
    (h : io.addEvent ctx fd event cb (some scheduler) fiber fails = .ok (b, io')) :
    Commits io ctx fd (.adds event (.waiting (some scheduler) fiber cb)) fails b io' := by
  have hfits := EpollCtlOp.fits_add (io.mem ctx).events event
  simp only [addEvent] at h
  generalize (if (io.mem ctx).events = .NONE then EpollCtlOp.ADD else .MOD) = op at h hfits
  split_ifs at h with htest hctl hctx
  · obtain ⟨rfl, rfl⟩ := Prod.mk.inj (Except.ok.inj h)
    exact Commits.of_ctl (hc.leaves_add (Bool.eq_false_iff.mpr htest)
      (EventContext.armed_waiting scheduler fiber cb)) FdContext.setContext_events hfits hctl rfl
  · obtain ⟨rfl, rfl⟩ := Prod.mk.inj (Except.ok.inj h)
    refine Commits.of_ctl (hc.leaves_add (Bool.eq_false_iff.mpr htest)
      (EventContext.armed_waiting scheduler fiber cb)) FdContext.setContext_events hfits
      ((Bool.not_eq_false _).mp hctl) ?_
    have hcount : ({ io.mem ctx with events := (io.mem ctx).events.add event }.setContext event
        (.waiting (some scheduler) fiber cb)).events.count = (io.mem ctx).events.count + 1 := by
      rw [FdContext.setContext_events, Events.count_add (Bool.eq_false_iff.mpr htest)]
    rw [if_pos rfl, put_eq hcount, List.append_nil]
    rfl

theorem addEvent_error {cb : Option ℕ} {scheduler fiber : ℕ} {a : Abort}
    (hc : (io.mem ctx).Consistent)
    (h : io.addEvent ctx fd event cb (some scheduler) fiber fails = .error a) :
    a = .eventExists := by
  simp only [addEvent] at h
  generalize (if (io.mem ctx).events = .NONE then EpollCtlOp.ADD else .MOD) = op at h
  split_ifs at h with htest hctl hctx
  · exact (Except.error.inj h).symm
  · -- an event context that is not empty belongs to a registered event
    have hempty := hc event
    rw [if_neg htest] at hempty
    exact absurd hempty hctx

/-- **`delEvent`** takes one event out and wakes nobody, or fails. -/
theorem delEvent_commits (hc : (io.mem ctx).Consistent)
    (h : io.delEvent ctx fd event fails = (b, io')) : Commits io ctx fd .drops fails b io' := by
  have hfits (htest : (io.mem ctx).events.test event = true) :=
    EpollCtlOp.fits_left (n := (io.mem ctx).events.remove event) (Events.ne_NONE_of_test htest)
  simp only [delEvent] at h
  generalize (if (io.mem ctx).events.remove event = .NONE then EpollCtlOp.DEL else .MOD) = op
    at h hfits
  split_ifs at h with htest hctl
  · obtain ⟨rfl, rfl⟩ := Prod.mk.inj h
    exact Commits.of_ctl (hc.leaves_disarm htest .drops) FdContext.disarm_events (hfits htest)
      hctl rfl
  · obtain ⟨rfl, rfl⟩ := Prod.mk.inj h
    refine Commits.of_ctl (hc.leaves_disarm htest .drops) FdContext.disarm_events (hfits htest)
      ((Bool.not_eq_false _).mp hctl) ?_
    have hcount : ((io.mem ctx).disarm event).events.count = (io.mem ctx).events.count + -1 := by
      rw [FdContext.disarm_events, Events.count_remove htest]
      rfl
    rw [if_pos rfl, FdContext.Effect.tasks, put_eq hcount, List.append_nil]
    rfl
  · obtain ⟨rfl, rfl⟩ := Prod.mk.inj h
    exact Or.inl ⟨rfl, rfl⟩

/-- **`cancelEvent`** takes one event out and hands its waiter over, or fails; its trigger never
fails. -/
theorem cancelEvent_commits (hc : (io.mem ctx).Consistent) :
    ∃ b io', io.cancelEvent ctx fd event fails = .ok (b, io') ∧
      Commits io ctx fd .wakes fails b io' := by
  have hfits (htest : (io.mem ctx).events.test event = true) :=
    EpollCtlOp.fits_left (n := (io.mem ctx).events.remove event) (Events.ne_NONE_of_test htest)
  simp only [cancelEvent]
  generalize (if (io.mem ctx).events.remove event = .NONE then EpollCtlOp.DEL else .MOD) = op
    at hfits ⊢
  split_ifs with htest hctl
  · exact ⟨_, _, rfl, Commits.of_ctl (hc.leaves_disarm htest .wakes) FdContext.disarm_events
      (hfits htest) hctl rfl⟩
  · rw [trigger_eq { io with epoll := (io.epoll.ctl op fd ((io.mem ctx).events.remove event) ctx
      fails).2 } hc htest]
    exact ⟨_, _, rfl, Commits.of_ctl (hc.leaves_disarm htest .wakes) FdContext.disarm_events
      (hfits htest) ((Bool.not_eq_false _).mp hctl) rfl⟩
  · exact ⟨_, _, rfl, Or.inl ⟨rfl, rfl⟩⟩

/-- `addEvent` that reports success has registered an event that was not. -/
theorem addEvent_test {cb : Option ℕ} {scheduler : Option ℕ} {fiber : ℕ}
    (h : io.addEvent ctx fd event cb scheduler fiber fails = .ok (true, io')) :
    (io'.mem ctx).events.test event = true := by
  simp only [addEvent] at h
  generalize (if (io.mem ctx).events = .NONE then EpollCtlOp.ADD else .MOD) = op at h
  split_ifs at h with htest hctl
  · cases h
  · obtain ⟨-, rfl⟩ := Prod.mk.inj (Except.ok.inj h)
    simp [store, Events.test_add]

/-- The waiter of an event that `addEvent` has registered. -/
theorem addEvent_getContext {cb : Option ℕ} {scheduler : Option ℕ} {fiber : ℕ}
    (h : io.addEvent ctx fd event cb scheduler fiber fails = .ok (true, io')) :
    (io'.mem ctx).getContext event = .waiting scheduler fiber cb := by
  simp only [addEvent] at h
  generalize (if (io.mem ctx).events = .NONE then EpollCtlOp.ADD else .MOD) = op at h
  split_ifs at h with htest hctl
  · cases h
  · obtain ⟨-, rfl⟩ := Prod.mk.inj (Except.ok.inj h)
    simp [store, FdContext.getContext_setContext]

/-- The kernel refuses the registration that `addEvent` asks for. -/
def Refuses (io : IOManager) (ctx fd : ℕ) (event : Event) (fails : Bool) : Prop :=
  (io.epoll.ctl (if (io.mem ctx).events = .NONE then .ADD else .MOD) fd
    ((io.mem ctx).events.add event) ctx fails).1 = false

/-- Then `addEvent` does not report success. -/
theorem addEvent_of_refuses {cb : Option ℕ} {scheduler : Option ℕ} {fiber : ℕ}
    (hrefuses : io.Refuses ctx fd event fails)
    (h : io.addEvent ctx fd event cb scheduler fiber fails = .ok (b, io')) : b = false := by
  unfold Refuses at hrefuses
  simp only [addEvent] at h
  generalize (if (io.mem ctx).events = .NONE then EpollCtlOp.ADD else .MOD) = op at h hrefuses
  rw [if_pos hrefuses] at h
  split_ifs at h
  exact (Prod.mk.inj (Except.ok.inj h)).1.symm

/-- `cancelEvent` on a registered descriptor takes the event out. -/
theorem cancelEvent_test (hc : (io.mem ctx).Consistent) (hreg : (io.epoll.interest fd).isSome)
    (h : io.cancelEvent ctx fd event false = .ok (b, io')) :
    (io'.mem ctx).events.test event = false := by
  simp only [cancelEvent] at h
  by_cases htest : (io.mem ctx).events.test event = true
  · have hne := Events.ne_NONE_of_test htest
    have hfits := EpollCtlOp.fits_left (n := (io.mem ctx).events.remove event) hne
    generalize (if (io.mem ctx).events.remove event = .NONE then EpollCtlOp.DEL else .MOD) = op
      at h hfits
    have hctl : (io.epoll.ctl op fd ((io.mem ctx).events.remove event) ctx false).1 = true := by
      rw [ctl_left hfits hne, hreg]
      rfl
    rw [if_pos htest, hctl, if_neg (by decide)] at h
    have htrigger := trigger_eq { io with epoll := (io.epoll.ctl op fd
      ((io.mem ctx).events.remove event) ctx false).2 } hc htest
    rw [htrigger] at h
    obtain ⟨-, rfl⟩ := Prod.mk.inj (Except.ok.inj h)
    rw [put_mem_self, FdContext.disarm_events, Events.test_remove, if_pos rfl]
  · rw [if_neg htest] at h
    obtain ⟨-, rfl⟩ := Prod.mk.inj (Except.ok.inj h)
    exact Bool.eq_false_iff.mpr htest

/-- Triggering registered events only. -/
theorem triggerReal_eq (io : IOManager) {mask : Events} (hc : (io.mem ctx).Consistent)
    (hmask : mask.Subset (io.mem ctx).events) :
    ∃ c tasks, (io.mem ctx).Leaves .wakes c tasks ∧ c.events = (io.mem ctx).events.diff mask ∧
      io.triggerReal mask ctx = .ok (io.put ctx c tasks) := by
  have hread := triggerIf_eq io mask .READ hc (hmask .READ)
  have hleaves := hc.leaves_mask hmask
  have hevents := (io.mem ctx).disarmIf_disarmIf_events mask
  have hbit := (io.mem ctx).disarmIf_READ_test_WRITE mask
  have hcons := hc.disarmIf mask .READ
  generalize (io.mem ctx).disarmIf mask .READ = c at hread hleaves hevents hbit hcons
  have hwrite := triggerIf_eq (io.put ctx c ((io.mem ctx).taskIf mask .READ)) mask .WRITE
    (by rwa [put_mem_self]) (by rw [put_mem_self, hbit]; exact hmask .WRITE)
  rw [put_mem_self, put_put] at hwrite
  refine ⟨_, _, hleaves, hevents, ?_⟩
  simp only [triggerReal, hread, hwrite, bind, Except.bind]

/-- `cancelAll` triggers what is registered, and its last assertion holds. -/
theorem triggerAll_eq (io : IOManager) (hc : (io.mem ctx).Consistent) :
    ∃ c tasks, (io.mem ctx).Leaves .wakes c tasks ∧ c.events = .NONE ∧
      io.triggerAll ctx = .ok (true, io.put ctx c tasks) := by
  have hself : (io.mem ctx).events.Subset (io.mem ctx).events := fun _ => id
  have hread := triggerIf_eq io (io.mem ctx).events .READ hc id
  obtain ⟨c, tasks, hleaves, hevents, htrigger⟩ := triggerReal_eq io hc hself
  -- the second test reads the bits again, and the write bit is as it was
  have hsame (tasks : List Task) :
      (io.put ctx ((io.mem ctx).disarmIf (io.mem ctx).events .READ) tasks).triggerIf
        ((io.mem ctx).disarmIf (io.mem ctx).events .READ).events ctx .WRITE =
      (io.put ctx ((io.mem ctx).disarmIf (io.mem ctx).events .READ) tasks).triggerIf
        (io.mem ctx).events ctx .WRITE := by
    rw [triggerIf, triggerIf, FdContext.disarmIf_READ_test_WRITE]
  have hagain : io.triggerAll ctx = (io.triggerReal (io.mem ctx).events ctx).bind fun io =>
      if (io.mem ctx).events = .NONE then .ok (true, io) else .error .eventsLeft := by
    simp only [triggerAll, triggerReal, hread, bind, Except.bind, put_mem_self, hsame]
  rw [Events.diff_self] at hevents
  refine ⟨c, tasks, hleaves, hevents, ?_⟩
  rw [hagain, htrigger]
  simp only [Except.bind, put_mem_self, hevents, if_true]

/-- **`cancelAll`** takes every event out and hands the waiters over, or fails; neither its
triggers nor its last assertion fail. -/
theorem cancelAll_commits (hc : (io.mem ctx).Consistent) :
    ∃ b io', io.cancelAll ctx fd fails = .ok (b, io') ∧ Commits io ctx fd .wakes fails b io' := by
  have hself : (io.mem ctx).events.Subset (io.mem ctx).events := fun _ => id
  have hnothing : (((io.mem ctx).disarmIf (io.mem ctx).events .READ).disarmIf
      (io.mem ctx).events .WRITE).events = .NONE := by
    rw [FdContext.disarmIf_disarmIf_events, Events.diff_self]
  simp only [cancelAll]
  split_ifs with hnone hctl
  · exact ⟨_, _, rfl, Or.inl ⟨rfl, rfl⟩⟩
  · exact ⟨_, _, rfl, Commits.of_ctl (hc.leaves_mask hself) hnothing (EpollCtlOp.fits_del hnone)
      hctl rfl⟩
  · obtain ⟨c, tasks, hleaves, hevents, htrigger⟩ := triggerAll_eq
      { io with epoll := (io.epoll.ctl .DEL fd .NONE ctx fails).2 } hc
    rw [htrigger]
    exact ⟨_, _, rfl, Commits.of_ctl hleaves hevents (EpollCtlOp.fits_del hnone)
      ((Bool.not_eq_false _).mp hctl) rfl⟩

/-- `cancelAll` leaves no event when it finds none or the kernel lets the descriptor go. -/
theorem cancelAll_events (hc : (io.mem ctx).Consistent)
    (hctl : (io.mem ctx).events = .NONE ∨ (io.epoll.ctl .DEL fd .NONE ctx fails).1 = true)
    (h : io.cancelAll ctx fd fails = .ok (b, io')) : (io'.mem ctx).events = .NONE := by
  simp only [cancelAll] at h
  by_cases hnone : (io.mem ctx).events = .NONE
  · rw [if_pos hnone] at h
    obtain ⟨-, rfl⟩ := Prod.mk.inj (Except.ok.inj h)
    exact hnone
  · have hctl := hctl.resolve_left hnone
    obtain ⟨c, tasks, -, hevents, htrigger⟩ := triggerAll_eq
      { io with epoll := (io.epoll.ctl .DEL fd .NONE ctx fails).2 } hc
    rw [if_neg hnone, hctl, if_neg (by decide), htrigger] at h
    obtain ⟨-, rfl⟩ := Prod.mk.inj (Except.ok.inj h)
    rw [put_mem_self, hevents]

/-! ### The event loop -/

/-- Triggering an event that is not registered. -/
theorem triggerReal_error {mask : Events} (hc : (io.mem ctx).Consistent)
    (hmask : ¬ mask.Subset (io.mem ctx).events) :
    io.triggerReal mask ctx = .error .triggerEvent := by
  by_cases hread : mask.test .READ = true → (io.mem ctx).events.test .READ = true
  · -- the first trigger is fine, so it is the second one that names an unregistered event
    have hwrite : mask.test .WRITE = true ∧ (io.mem ctx).events.test .WRITE = false := by
      by_contra hnot
      refine hmask fun e he => ?_
      cases e with
      | READ => exact hread he
      | WRITE =>
        by_contra hbit
        exact hnot ⟨he, Bool.eq_false_iff.mpr hbit⟩
    simp only [triggerReal, triggerIf_eq io mask .READ hc hread, bind, Except.bind]
    refine triggerIf_error hwrite.1 ?_
    rw [put_mem_self, FdContext.disarmIf_READ_test_WRITE]
    exact hwrite.2
  · rw [Classical.not_imp] at hread
    simp only [triggerReal, triggerIf_error hread.1 (Bool.eq_false_iff.mpr hread.2), bind,
      Except.bind]

/-- The record names no registered event, or only registered ones, or the loop gives up at
`epoll_ctl`. -/
def Handles (io : IOManager) (event : EpollEvent) (fails : Bool) : Prop :=
  (io.mem event.ptr).events.inter (io.realEvents event) = .NONE ∨
    (io.realEvents event).diff (io.mem event.ptr).events = .NONE ∨
    fails = true ∨ (io.epoll.interest (io.mem event.ptr).fd).isSome = false

variable {ev : EpollEvent}

/-- **The loop body** on a record all of whose events are registered, or none. -/
theorem handleEvent_commits (hc : (io.mem ev.ptr).Consistent) (h : io.Handles ev fails) :
    ∃ b io', io.handleEvent ev fails = .ok io' ∧
      Commits io ev.ptr (io.mem ev.ptr).fd .wakes fails b io' := by
  have hfits (hne : (io.mem ev.ptr).events ≠ .NONE) :=
    EpollCtlOp.fits_left (n := (io.mem ev.ptr).events.diff (io.realEvents ev)) hne
  simp only [handleEvent]
  generalize (if (io.mem ev.ptr).events.diff (io.realEvents ev) = .NONE then EpollCtlOp.DEL
    else .MOD) = op at hfits ⊢
  split_ifs with hnone hctl
  · exact ⟨false, io, rfl, Or.inl ⟨rfl, rfl⟩⟩
  · -- the call has failed, so what the loop would have left does not matter
    have hne := Events.ne_NONE_of_inter hnone
    have hleaves := hc.leaves_mask (Events.inter_subset (io.mem ev.ptr).events (io.realEvents ev))
    refine ⟨false, _, rfl, Commits.of_ctl hleaves ?_ (hfits hne) hctl rfl⟩
    rw [FdContext.disarmIf_disarmIf_events, Events.diff_inter]
  · have hne := Events.ne_NONE_of_inter hnone
    have hsubset : (io.realEvents ev).Subset (io.mem ev.ptr).events := by
      rw [← Events.diff_eq_NONE_iff]
      refine (h.resolve_left hnone).resolve_right fun hfails => hctl ?_
      rw [ctl_left (hfits hne) hne]
      rcases hfails with rfl | hreg
      · rfl
      · rw [hreg, Bool.and_false]
    obtain ⟨c, tasks, hleaves, hevents, htrigger⟩ := triggerReal_eq
      { io with epoll := (io.epoll.ctl op (io.mem ev.ptr).fd
        ((io.mem ev.ptr).events.diff (io.realEvents ev)) ev.ptr fails).2 } hc hsubset
    rw [htrigger]
    exact ⟨true, _, rfl, Commits.of_ctl hleaves hevents (hfits hne)
      ((Bool.not_eq_false _).mp hctl) rfl⟩

/-- **The loop body** on any other record fails the assertion of `triggerEvent`. -/
theorem handleEvent_error (hc : (io.mem ev.ptr).Consistent) (h : ¬ io.Handles ev fails) :
    io.handleEvent ev fails = .error .triggerEvent := by
  simp only [Handles, not_or] at h
  obtain ⟨hnone, hdiff, hfails, hreg⟩ := h
  have hne := Events.ne_NONE_of_inter hnone
  have hfits := EpollCtlOp.fits_left (n := (io.mem ev.ptr).events.diff (io.realEvents ev)) hne
  simp only [handleEvent]
  generalize (if (io.mem ev.ptr).events.diff (io.realEvents ev) = .NONE then EpollCtlOp.DEL
    else .MOD) = op at hfits ⊢
  have hctl : (io.epoll.ctl op (io.mem ev.ptr).fd
      ((io.mem ev.ptr).events.diff (io.realEvents ev)) ev.ptr fails).1 = true := by
    rw [ctl_left hfits hne, Bool.eq_false_iff.mpr hfails, (Bool.not_eq_false _).mp hreg]
    rfl
  rw [if_neg hnone, hctl, if_neg (by decide)]
  exact triggerReal_error hc fun hsubset => hdiff (Events.diff_eq_NONE_iff.mpr hsubset)

end IOManager

end Muhui
