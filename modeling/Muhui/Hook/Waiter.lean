/-
  The one fiber that waits in `do_io`, as the `IOManager` sees it.

  While the fiber waits it is either in the event context of its descriptor or in the queue of its
  scheduler.  `tokens` counts the two together, and `Calm` says what all steps but the
  registration itself have in common: they leave that count alone and set the bit for nobody.
-/
import Muhui.Hook.Wait

namespace Muhui.DoIo

open IOManager (Commits)

variable {d : DoIo} {io io' : IOManager} {ctx fd : ℕ} {effect : FdContext.Effect} {fails b : Bool}

/-- The event of the call is registered. -/
def Registered (d : DoIo) (io : IOManager) : Prop := (io.mem d.fd).events.test d.event = true

instance (d : DoIo) (io : IOManager) : Decidable (d.Registered io) :=
  inferInstanceAs (Decidable (_ = true))

/-- The fiber waits for nothing but this event, and if the event is registered, then for it. -/
structure Watched (d : DoIo) (io : IOManager) : Prop where
  others : ∀ p e, p ≠ d.fd ∨ e ≠ d.event → ((io.mem p).getContext e).fiber ≠ some d.fiber
  waiting : d.Registered io →
    (io.mem d.fd).getContext d.event = .waiting (some d.scheduler) d.fiber none
  inTable : d.Registered io → d.fd < io.created

/-- How many resumptions of the fiber are queued or will be. -/
def tokens (d : DoIo) (io : IOManager) : ℕ :=
  io.scheduled.count d.resume + if d.Registered io then 1 else 0

theorem count_tasks_of_ne {ctx : EventContext} (h : ctx.fiber ≠ some d.fiber) :
    ctx.tasks.count d.resume = 0 := by
  obtain ⟨scheduler, fiber, cb⟩ := ctx
  rw [List.count_eq_zero]
  cases scheduler with
  | none => exact List.not_mem_nil
  | some scheduler =>
    intro hmem
    have heq : d.resume = _ := List.mem_singleton.mp hmem
    simp only [resume, Task.mk.injEq] at heq
    obtain ⟨-, hfiber, rfl⟩ := heq
    exact h hfiber.symm

/-- The task of an event that is not the one waited for is somebody else's. -/
theorem count_taskIf_of_ne {c : FdContext} {mask : Events} {e : Event}
    (h : (c.getContext e).fiber ≠ some d.fiber) : (c.taskIf mask e).count d.resume = 0 := by
  rw [FdContext.taskIf]
  split_ifs
  · exact count_tasks_of_ne h
  · rfl

/-- Among the tasks of the events taken out is the one of the fiber exactly when its event is
among them. -/
theorem Watched.count_cleared (h : d.Watched io) (c : FdContext) (p : ℕ) :
    ((io.mem p).cleared c).count d.resume =
      if p = d.fd ∧ d.Registered io ∧ c.events.test d.event = false then 1 else 0 := by
  have hdiff (e : Event) : ((io.mem p).events.diff c.events).test e =
      ((io.mem p).events.test e && !c.events.test e) := by cases e <;> rfl
  by_cases hp : p = d.fd
  · subst hp
    have hself : ((io.mem d.fd).taskIf ((io.mem d.fd).events.diff c.events) d.event).count
        d.resume = if d.Registered io ∧ c.events.test d.event = false then 1 else 0 := by
      rw [FdContext.taskIf, hdiff]
      by_cases hreg : d.Registered io
      · have hbit : (io.mem d.fd).events.test d.event = true := hreg
        cases hc : c.events.test d.event
        · rw [hbit, h.waiting hreg]
          simp [hreg, EventContext.tasks, EventContext.waiting, resume]
        · simp
      · have hbit : (io.mem d.fd).events.test d.event = false := Bool.eq_false_iff.mpr hreg
        simp [hbit, hreg]
    rw [FdContext.cleared, List.count_append]
    cases he : d.event
    · rw [← he, hself, he, count_taskIf_of_ne (h.others d.fd .WRITE (Or.inr (by simp [he])))]
      simp
    · rw [← he, hself, he, count_taskIf_of_ne (h.others d.fd .READ (Or.inr (by simp [he])))]
      simp
  · rw [FdContext.cleared, List.count_append, count_taskIf_of_ne (h.others p .READ (Or.inl hp)),
      count_taskIf_of_ne (h.others p .WRITE (Or.inl hp)), if_neg fun h => hp h.1]

/-- What `do_io` and the event loops do: take events out and wake, or put the event of the call
in. -/
def Allowed (d : DoIo) (ctx : ℕ) (effect : FdContext.Effect) : Prop :=
  effect = .wakes ∨ (ctx = d.fd ∧ effect = d.add.effect)

theorem Allowed.tasks (h : d.Allowed ctx effect) (tasks : List Task) :
    effect.tasks tasks = tasks := by
  rcases h with rfl | ⟨-, rfl⟩ <;> rfl

/-- What is added is the event of the call, with the fiber as its waiter. -/
theorem Allowed.adds {e : Event} {c : EventContext} (h : d.Allowed ctx (.adds e c)) :
    ctx = d.fd ∧ e = d.event ∧ c = .waiting (some d.scheduler) d.fiber none := by
  rcases h with h | ⟨hctx, h⟩
  · cases h
  · obtain ⟨rfl, rfl⟩ := FdContext.Effect.adds.inj h
    exact ⟨hctx, rfl, rfl⟩

/-- **A section keeps the watch**, and queues the resumption exactly when it takes the event out. -/
theorem Watched.commits (h : d.Watched io) (hcommits : Commits io ctx fd effect fails b io')
    (hallowed : d.Allowed ctx effect) (hctx : ctx < io.created) :
    d.Watched io' ∧ io'.scheduled.count d.resume =
      io.scheduled.count d.resume + if d.Registered io ∧ ¬ d.Registered io' then 1 else 0 := by
  obtain ⟨-, hcreated, ⟨hmem, hscheduled⟩ | ⟨c, tasks, hleaves, hmem, hscheduled⟩⟩ :=
    hcommits.writes
  · have hreg : d.Registered io' ↔ d.Registered io := by rw [Registered, Registered, hmem]
    refine ⟨⟨by rw [hmem]; exact h.others, fun h' => ?_, fun h' => ?_⟩, ?_⟩
    · rw [hmem]
      exact h.waiting (hreg.mp h')
    · rw [hcreated]
      exact h.inTable (hreg.mp h')
    · simp [hscheduled, hreg]
  have hself : io'.mem ctx = c := by rw [hmem, Function.update_self]
  have hother (p : ℕ) (hp : p ≠ ctx) : io'.mem p = io.mem p := by
    rw [hmem, Function.update_of_ne hp]
  rw [hleaves.tasks, hallowed.tasks] at hscheduled
  refine ⟨⟨fun p e hpe => ?_, fun hreg => ?_, fun hreg => ?_⟩, ?_⟩
  · by_cases hp : p = ctx
    · subst hp
      rw [hself]
      rcases hleaves.getContext e with hkept | hempty | hadds
      · rw [hkept]
        exact h.others p e hpe
      · rw [hempty]
        simp [EventContext.empty]
      · -- the context that is added is the one that is exempt
        obtain ⟨rfl, rfl, -⟩ := (hadds ▸ hallowed).adds
        simp at hpe
    · rw [hother p hp]
      exact h.others p e hpe
  · rw [Registered] at hreg
    by_cases hctx : d.fd = ctx
    · rw [hctx, hself] at hreg ⊢
      by_cases hold : d.Registered io
      · rw [Registered, hctx] at hold
        rw [hleaves.kept d.event hold hreg, ← hctx]
        exact h.waiting (by rwa [Registered, hctx])
      · rw [Registered, hctx] at hold
        have hadds := hleaves.new d.event (Bool.eq_false_iff.mpr hold) hreg
        exact ((hadds ▸ hallowed).adds).2.2
    · rw [hother d.fd hctx] at hreg ⊢
      exact h.waiting hreg
  · rw [hcreated]
    by_cases hctx' : d.fd = ctx
    · rwa [hctx']
    · rw [Registered, hother d.fd hctx'] at hreg
      exact h.inTable hreg
  · rw [hscheduled, List.count_append, h.count_cleared c ctx]
    congr 1
    have hreg' : ctx = d.fd → (d.Registered io' ↔ c.events.test d.event = true) := by
      rintro rfl
      rw [Registered, hself]
    by_cases hctx' : ctx = d.fd
    · simp only [hreg' hctx', hctx', true_and, Bool.not_eq_true]
    · have hsame : d.Registered io' ↔ d.Registered io := by
        rw [Registered, Registered, hother d.fd (Ne.symm hctx')]
      simp [hsame, hctx']

/-- Nothing but the registration sets the bit. -/
theorem registered_of_wakes (hcommits : Commits io ctx fd .wakes fails b io')
    (hreg : d.Registered io') : d.Registered io := by
  obtain ⟨-, -, ⟨hmem, -⟩ | ⟨c, tasks, hleaves, hmem, -⟩⟩ := hcommits.writes
  · rwa [Registered, hmem] at hreg
  · rw [Registered, hmem] at hreg
    by_cases hctx : d.fd = ctx
    · rw [← hctx, Function.update_self] at hreg
      rw [← hctx] at hleaves
      by_contra hold
      cases hleaves.new d.event (Bool.eq_false_iff.mpr hold) hreg
    · rwa [Function.update_of_ne hctx] at hreg

/-- A resize makes empty contexts only. -/
theorem Watched.contextResize (h : d.Watched io) (size : ℕ) :
    d.Watched (io.contextResize size) ∧
      (d.Registered (io.contextResize size) ↔ d.Registered io) := by
  have hmem (p : ℕ) : (io.contextResize size).mem p = io.mem p ∨
      ∃ fd, (io.contextResize size).mem p = .new fd := by
    by_cases hp : io.created ≤ p ∧ p < (io.contextResize size).created
    · exact Or.inr ⟨_, (io.contextResize_mem size p).2 hp.1 hp.2⟩
    · exact Or.inl (if_neg hp)
  have hkept (hreg : d.Registered io) : (io.contextResize size).mem d.fd = io.mem d.fd :=
    (io.contextResize_mem size d.fd).1 (h.inTable hreg)
  have hreg : d.Registered (io.contextResize size) ↔ d.Registered io := by
    constructor
    · intro hreg
      rcases hmem d.fd with hold | ⟨fd, hnew⟩
      · rwa [Registered, hold] at hreg
      · rw [Registered, hnew] at hreg
        cases he : d.event <;> rw [he] at hreg <;> cases hreg
    · intro hreg
      rwa [Registered, hkept hreg]
  refine ⟨⟨fun p e hpe => ?_, fun h' => ?_, fun h' => ?_⟩, hreg⟩
  · rcases hmem p with hold | ⟨fd, hnew⟩
    · rw [hold]
      exact h.others p e hpe
    · rw [hnew]
      cases e <;> simp [FdContext.new, FdContext.getContext, EventContext.empty]
  · rw [hkept (hreg.mp h')]
    exact h.waiting (hreg.mp h')
  · exact lt_of_lt_of_le (h.inTable (hreg.mp h')) (io.contextResize_created size)

/-! ### Steps of the `IOManager` -/

open IOManager.System (Next BookInv Tidy Grows)

variable {s s' : IOManager.System} {a : IOManager.Step}

structure Base (d : DoIo) (s : IOManager.System) : Prop where
  book : s.BookInv
  watched : d.Watched s.io

/-- What a step has in common with all steps but the registration. -/
structure Calm (d : DoIo) (s s' : IOManager.System) : Prop where
  base : d.Base s'
  tokens : d.tokens s'.io = d.tokens s.io
  registered : d.Registered s'.io → d.Registered s.io

/-- The steps that are not the registration. -/
def CalmStep (s : IOManager.System) : IOManager.Step → Prop
  | .call .. | .wait .. | .handle .. => True
  | .grow t => Grows s (.grow t)
  | .critical t _ => ∀ ctx fd c, s.pc t = .holding ctx fd c → c.effect = .wakes
  | .close _ => False

theorem CalmStep.tidy (h : CalmStep s a) : Tidy s a := by
  cases a with
  | call | wait | handle | critical => trivial
  | grow t => exact h
  | close fd => exact h.elim

theorem Calm.of_same (h : d.Base s) (hbook : s'.BookInv) (hio : s'.io = s.io) : d.Calm s s' :=
  ⟨⟨hbook, hio ▸ h.watched⟩, by rw [hio], by rw [hio]; exact id⟩

theorem Calm.of_commits (h : d.Base s) (hbook : s'.BookInv)
    (hcommits : Commits s.io ctx fd .wakes fails b s'.io) (hctx : ctx < s.io.created) :
    d.Calm s s' := by
  obtain ⟨hwatched, hcount⟩ := h.watched.commits hcommits (Or.inl rfl) hctx
  have hreg : d.Registered s'.io → d.Registered s.io := registered_of_wakes hcommits
  refine ⟨⟨hbook, hwatched⟩, ?_, hreg⟩
  rw [DoIo.tokens, DoIo.tokens, hcount]
  by_cases h₁ : d.Registered s'.io
  · simp [h₁, hreg h₁]
  · simp [h₁]

theorem Base.calm (h : d.Base s) (ha : CalmStep s a) (hnext : s.next a = some s') :
    d.Calm s s' := by
  have hbook := h.book.next ha.tidy hnext
  obtain ⟨-, hnext⟩ := Next.of_next hnext
  have hresize (size : ℕ) (hio : s'.io = s.io.contextResize size) : d.Calm s s' := by
    obtain ⟨hwatched, hreg⟩ := h.watched.contextResize size
    refine ⟨⟨hbook, hio ▸ hwatched⟩, ?_, by rw [hio]; exact hreg.mp⟩
    rw [hio, tokens, tokens]
    simp only [hreg]
    rfl
  cases hnext with
  | found | missing | refused | waited | finished | asserted | failed =>
    exact Calm.of_same h hbook rfl
  | grown | outOfBounds => exact hresize _ rfl
  | returned t ctx fd c fails b io hpc hrun =>
    have hcommits := IOManager.Call.run_commits h.book.table.consistent hrun
    rw [ha ctx fd c hpc] at hcommits
    have hholding := h.book.sound.pc t
    rw [hpc] at hholding
    exact Calm.of_commits h hbook hcommits hholding.1
  | handled t event events fails io hpc hrun =>
    obtain ⟨-, b, hcommits⟩ := IOManager.handleEvent_ok h.book.table.consistent hrun
    have hpolling := h.book.sound.pc t
    rw [hpc] at hpolling
    exact Calm.of_commits h hbook hcommits (hpolling event List.mem_cons_self)
  | closed fd => exact ha.elim

/-- **The registration** adds one token when it succeeds, and none when it fails. -/
theorem Base.register (h : d.Base s) {t : ℕ} (hpc : s.pc t = .holding d.fd d.fd d.add)
    (hold : ¬ d.Registered s.io) (hnext : s.next (.critical t fails) = some s') :
    d.Base s' ∧ d.tokens s'.io = d.tokens s.io + (if s.returns t fails then 1 else 0) ∧
      (d.Registered s'.io → s.returns t fails = true ∧ fails = false) := by
  have hbook := h.book.next (a := .critical t fails) trivial hnext
  obtain ⟨-, hnext⟩ := Next.of_next hnext
  cases hnext with
  | returned t ctx fd c fails b io hpc' hrun =>
    obtain ⟨rfl, rfl, rfl⟩ := IOManager.Pc.holding.inj (hpc.symm.trans hpc')
    have hreturns : s.returns t fails = b := by
      simp only [IOManager.System.returns, hpc, hrun]
    have hcommits := IOManager.Call.run_commits h.book.table.consistent hrun
    have hholding := h.book.sound.pc t
    rw [hpc] at hholding
    obtain ⟨hwatched, hcount⟩ := h.watched.commits hcommits (Or.inr ⟨rfl, rfl⟩) hholding.1
    rw [hreturns]
    have hreg : d.Registered io ↔ b = true ∧ fails = false := by
      cases b
      · rw [Registered, hcommits.of_fails.1]
        simpa [Registered] using hold
      · have hsucceeds := hcommits.not_fails
        simp [Registered, IOManager.addEvent_test hrun, hsucceeds]
    refine ⟨⟨hbook, hwatched⟩, ?_, hreg.mp⟩
    show io.scheduled.count d.resume + _ = _
    rw [hcount, tokens, if_neg hold, if_neg fun h => hold h.1]
    cases b
    · simp [IOManager.System.move, hreg]
    · have hsucceeds := hcommits.not_fails
      simp [IOManager.System.move, hreg, hsucceeds]
  | asserted t ctx fd c fails a hpc' hrun =>
    obtain ⟨rfl, rfl, rfl⟩ := IOManager.Pc.holding.inj (hpc.symm.trans hpc')
    have hreturns : s.returns t fails = false := by
      simp only [IOManager.System.returns, hpc, hrun]
    rw [hreturns]
    exact ⟨⟨hbook, h.watched⟩, rfl, fun hreg => absurd hreg hold⟩

/-- **`cancelEvent`** that the kernel does not fail leaves the event unregistered. -/
theorem Base.cancel (h : d.Base s) {t : ℕ}
    (hpc : s.pc t = .holding d.fd d.fd (.cancelEvent d.event))
    (hfails : d.Registered s.io → fails = false)
    (hnext : s.next (.critical t fails) = some s') : d.Calm s s' ∧ ¬ d.Registered s'.io := by
  have hcalm : d.Calm s s' := by
    refine h.calm (a := .critical t fails) (fun ctx fd c hpc' => ?_) hnext
    obtain ⟨-, -, rfl⟩ := IOManager.Pc.holding.inj (hpc.symm.trans hpc')
    rfl
  refine ⟨hcalm, ?_⟩
  intro hreg
  have hold := hcalm.registered hreg
  obtain rfl := hfails hold
  have hkernel : (s.io.epoll.interest d.fd).isSome := by
    rw [h.book.balanced.kernel, if_pos (h.watched.inTable hold), isSome_registration]
    exact Events.ne_NONE_of_test hold
  obtain ⟨-, hnext⟩ := Next.of_next hnext
  cases hnext with
  | returned t ctx fd c fails b io hpc' hrun =>
    obtain ⟨rfl, rfl, rfl⟩ := IOManager.Pc.holding.inj (hpc.symm.trans hpc')
    have hclear := IOManager.cancelEvent_test (h.book.table.consistent d.fd) hkernel hrun
    rw [Registered] at hreg
    exact absurd hreg (Bool.eq_false_iff.mp hclear)
  | asserted t ctx fd c fails a hpc' hrun =>
    obtain ⟨rfl, rfl, rfl⟩ := IOManager.Pc.holding.inj (hpc.symm.trans hpc')
    obtain ⟨b, io, hok, -⟩ := IOManager.cancelEvent_commits (h.book.table.consistent d.fd)
    cases hok.symm.trans hrun

end Muhui.DoIo
