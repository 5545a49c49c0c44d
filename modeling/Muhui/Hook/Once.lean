/-
  Each hooked wait is resumed at most once and leaves nothing behind.

  The fiber is in at most one event context of all (`Alone`), and a section of the `IOManager` hands
  it to the scheduler at most once, when it takes it out of that context (`Waiting.take`).  So a
  task for the fiber uses up the registration it comes from, and a call of `do_io` that goes on has
  none left.  Its timer leaves the set when it is cancelled, if not before.
-/
import Muhui.Hook.Calls

namespace Muhui.HookedFiber

open IOManager (Commits)
open ConditionTimer

variable {h : HookedFiber} {io io' : IOManager} {ctx fd : ℕ} {effect : FdContext.Effect}
  {fails b : Bool} {c c' : FdContext} {mask : Events} {e : Event}

/-! ### The event contexts -/

/-- The fiber waits for `e` in the context at `p`. -/
def Waits (h : HookedFiber) (io : IOManager) (p : ℕ) (e : Event) : Prop :=
  ((io.mem p).getContext e).fiber = some h.fiber

/-- The fiber waits for nothing. -/
def Free (h : HookedFiber) (io : IOManager) : Prop := ∀ p e, ¬ h.Waits io p e

/-- The fiber waits for one event at most. -/
def Alone (h : HookedFiber) (io : IOManager) : Prop :=
  ∀ p e p' e', h.Waits io p e → h.Waits io p' e' → p = p' ∧ e = e'

theorem Free.alone (hfree : h.Free io) : h.Alone io := fun p e _ _ hw => absurd hw (hfree p e)

/-- The tasks for the fiber. -/
def count (h : HookedFiber) (tasks : List Task) : ℕ :=
  tasks.countP fun task => task.fiber = some h.fiber

theorem count_append (tasks tasks' : List Task) :
    h.count (tasks ++ tasks') = h.count tasks + h.count tasks' := List.countP_append

theorem count_tasks_le (ctx : EventContext) :
    h.count ctx.tasks ≤ if ctx.fiber = some h.fiber then 1 else 0 := by
  obtain ⟨scheduler, fiber, cb⟩ := ctx
  cases scheduler with
  | none => exact Nat.zero_le _
  | some scheduler =>
    cases cb with
    | none => simp [count, EventContext.tasks, List.countP_cons]
    | some cb => simp [count, EventContext.tasks]

theorem count_taskIf_le (h : HookedFiber) (c : FdContext) (mask : Events) (e : Event) :
    h.count (c.taskIf mask e) ≤
      if mask.test e = true ∧ (c.getContext e).fiber = some h.fiber then 1 else 0 := by
  unfold FdContext.taskIf
  by_cases hmask : mask.test e = true
  · simp only [hmask, if_true, true_and]
    exact count_tasks_le _
  · rw [if_neg hmask]
    exact Nat.zero_le _

/-- The fiber is handed over at most once, and only if its event is taken out. -/
theorem count_cleared (c' : FdContext) (hone : (c.getContext .READ).fiber = some h.fiber →
      (c.getContext .WRITE).fiber ≠ some h.fiber) :
    h.count (c.cleared c') = 0 ∨ h.count (c.cleared c') = 1 ∧
      ∃ e, (c.getContext e).fiber = some h.fiber ∧ c'.events.test e = false := by
  have htest : ∀ e, (c.events.diff c'.events).test e = true → c'.events.test e = false := by
    intro e he
    have hdiff : (c.events.diff c'.events).test e = (c.events.test e && !c'.events.test e) := by
      cases e <;> rfl
    rw [hdiff, Bool.and_eq_true, Bool.not_eq_true'] at he
    exact he.2
  have hread := h.count_taskIf_le c (c.events.diff c'.events) .READ
  have hwrite := h.count_taskIf_le c (c.events.diff c'.events) .WRITE
  rw [FdContext.cleared, count_append]
  split_ifs at hread hwrite with hr hw hw
  · exact absurd hw.2 (hone hr.2)
  · by_cases hzero : h.count (c.taskIf (c.events.diff c'.events) .READ) = 0
    · exact Or.inl (by omega)
    · exact Or.inr ⟨by omega, .READ, hr.2, htest .READ hr.1⟩
  · by_cases hzero : h.count (c.taskIf (c.events.diff c'.events) .WRITE) = 0
    · exact Or.inl (by omega)
    · exact Or.inr ⟨by omega, .WRITE, hw.2, htest .WRITE hw.1⟩
  · exact Or.inl (by omega)

/-! ### Sections -/

/-- The section does not register the fiber. -/
def Spares (h : HookedFiber) (effect : FdContext.Effect) : Prop :=
  ∀ e ctx, effect = .adds e ctx → ctx.fiber ≠ some h.fiber

/-- What a step has in common with all steps but the registration: it registers the fiber nowhere,
and it hands the fiber over only by taking it out of its context. -/
def Calm (h : HookedFiber) (io io' : IOManager) : Prop :=
  (∀ p e, h.Waits io' p e → h.Waits io p e) ∧
    (h.resumptions io' = h.resumptions io ∨
      h.resumptions io' = h.resumptions io + 1 ∧ ¬ h.Free io ∧ h.Free io')

theorem Calm.of_same (hmem : io'.mem = io.mem) (hscheduled : io'.scheduled = io.scheduled) :
    h.Calm io io' := by
  refine ⟨fun p e hw => ?_, Or.inl ?_⟩
  · rwa [Waits, hmem] at hw
  · rw [resumptions, hscheduled]
    rfl

theorem Calm.alone (hcalm : h.Calm io io') (halone : h.Alone io) : h.Alone io' :=
  fun p e p' e' hw hw' => halone p e p' e' (hcalm.1 p e hw) (hcalm.1 p' e' hw')

/-- **A section** that does not register the fiber. -/
theorem calm_of_commits (halone : h.Alone io)
    (hcommits : Commits io ctx fd effect fails b io') (hspares : h.Spares effect) :
    h.Calm io io' := by
  obtain ⟨-, -, ⟨hmem, hscheduled⟩ | ⟨c, tasks, hleaves, hmem, hscheduled⟩⟩ := hcommits.writes
  · exact .of_same hmem hscheduled
  have hsub : ∀ p e, h.Waits io' p e → h.Waits io p e := by
    intro p e hw
    rw [Waits, hmem] at hw
    by_cases hp : p = ctx
    · subst hp
      rw [Function.update_self] at hw
      rcases hleaves.getContext e with hkept | hempty | hadds
      · rwa [hkept] at hw
      · rw [hempty] at hw
        cases hw
      · exact absurd hw (hspares e _ hadds)
    · rwa [Function.update_of_ne hp] at hw
  have hresumptions : h.resumptions io' = h.resumptions io + h.count tasks := by
    rw [resumptions, hscheduled]
    exact List.countP_append
  refine ⟨hsub, ?_⟩
  have hone : ((io.mem ctx).getContext .READ).fiber = some h.fiber →
      ((io.mem ctx).getContext .WRITE).fiber ≠ some h.fiber := by
    intro hr hw
    cases (halone ctx .READ ctx .WRITE hr hw).2
  rw [hresumptions, hleaves.tasks]
  cases effect with
  | drops => exact Or.inl rfl
  | adds | wakes =>
    rcases count_cleared c hone with hzero | ⟨hcount, e, hw, htest⟩
    · exact Or.inl (congrArg (h.resumptions io + ·) hzero)
    · -- the fiber was waiting in this context and nowhere else
      refine Or.inr ⟨congrArg (h.resumptions io + ·) hcount, fun hfree => hfree ctx e hw, ?_⟩
      intro p e' hw'
      obtain ⟨rfl, rfl⟩ := halone ctx e p e' hw (hsub p e' hw')
      have hempty := hleaves.consistent e
      rw [if_neg (Bool.eq_false_iff.mp htest)] at hempty
      rw [Waits, hmem, Function.update_self, hempty] at hw'
      cases hw'

/-- While the fiber waits for nothing, no section hands it over. -/
theorem resumptions_of_free (hfree : h.Free io)
    (hcommits : Commits io ctx fd effect fails b io') : h.resumptions io' = h.resumptions io := by
  obtain ⟨-, -, ⟨-, hscheduled⟩ | ⟨c, tasks, hleaves, -, hscheduled⟩⟩ := hcommits.writes
  · rw [resumptions, hscheduled]
    rfl
  have hnone : h.count ((io.mem ctx).cleared c) = 0 := by
    rcases count_cleared (c := io.mem ctx) c fun hr => absurd hr (hfree ctx .READ) with
      hzero | ⟨-, e, hw, -⟩
    · exact hzero
    · exact absurd hw (hfree ctx e)
  have hcount : h.count tasks = 0 := by
    rw [hleaves.tasks]
    cases effect with
    | drops => rfl
    | adds | wakes => exact hnone
  rw [resumptions, hscheduled]
  exact List.countP_append.trans (congrArg (h.resumptions io + ·) hcount)

/-- **The registration.** `addEvent` makes the fiber wait for its event if it succeeds, and for
nothing if it fails. -/
theorem addEvent_free {k : HookedCall} (hfree : h.Free io)
    (hcommits : Commits io ctx fd (h.add k).effect fails b io') :
    h.Alone io' ∧ (b = false → h.Free io') ∧ h.resumptions io' = h.resumptions io := by
  refine ⟨?_, fun hb => ?_, resumptions_of_free hfree hcommits⟩
  · have hnew : ∀ p e, h.Waits io' p e → p = ctx ∧ e = k.event := by
      intro p e hw
      obtain ⟨-, -, ⟨hmem, -⟩ | ⟨c, tasks, hleaves, hmem, -⟩⟩ := hcommits.writes
      · rw [Waits, hmem] at hw
        exact absurd hw (hfree p e)
      · rw [Waits, hmem] at hw
        by_cases hp : p = ctx
        · subst hp
          rw [Function.update_self] at hw
          rcases hleaves.getContext e with hkept | hempty | hadds
          · rw [hkept] at hw
            exact absurd hw (hfree p e)
          · rw [hempty] at hw
            cases hw
          · exact ⟨rfl, (FdContext.Effect.adds.inj hadds).1.symm⟩
        · rw [Function.update_of_ne hp] at hw
          exact absurd hw (hfree p e)
    intro p e p' e' hw hw'
    obtain ⟨rfl, rfl⟩ := hnew p e hw
    obtain ⟨rfl, rfl⟩ := hnew p' e' hw'
    exact ⟨rfl, rfl⟩
  · subst hb
    intro p e hw
    rw [Waits, hcommits.of_fails.1] at hw
    exact hfree p e hw

/-- A resize makes empty contexts only. -/
theorem calm_contextResize (io : IOManager) (size : ℕ) : h.Calm io (io.contextResize size) := by
  refine ⟨fun p e hw => ?_, Or.inl rfl⟩
  by_cases hp : io.created ≤ p ∧ p < (io.contextResize size).created
  · rw [Waits, (io.contextResize_mem size p).2 hp.1 hp.2] at hw
    cases e <;> cases hw
  · have hsame : (io.contextResize size).mem p = io.mem p := if_neg hp
    rwa [Waits, hsame] at hw

/-! ### Steps of the `IOManager` -/

open IOManager.System (Next)

variable {io io' : IOManager.System} {a : IOManager.Step} {own : Option ℕ}

theorem spares_of_registers {k : IOManager.Call} (hk : h.registers k = false) :
    h.Spares k.effect := by
  intro e ctx heq
  cases k with
  | addEvent event cb scheduler fiber =>
    obtain ⟨-, rfl⟩ := FdContext.Effect.adds.inj heq
    cases cb with
    | none => simpa [registers, EventContext.waiting] using hk
    | some cb =>
      intro hw
      cases hw
  | delEvent | cancelEvent | cancelAll => cases heq

theorem spares_wakes : h.Spares .wakes := nofun

/-- **A step** that does not register the fiber. -/
theorem calm_next (hc : io.io.Consistent) (halone : h.Alone io.io)
    (ha : ∀ t fails ctx fd k, a = .critical t fails → io.pc t = .holding ctx fd k →
      h.registers k = false) (hnext : io.next a = some io') : h.Calm io.io io'.io := by
  obtain ⟨-, hnext⟩ := Next.of_next hnext
  cases hnext with
  | found | missing | refused | asserted | waited | finished | failed | closed =>
    exact .of_same rfl rfl
  | grown | outOfBounds => exact calm_contextResize _ _
  | returned t ctx fd k fails b io' hpc hrun =>
    exact calm_of_commits halone (IOManager.Call.run_commits hc hrun)
      (spares_of_registers (ha t fails ctx fd k rfl hpc))
  | handled t event events fails io' hpc hrun =>
    obtain ⟨-, b, hcommits⟩ := IOManager.handleEvent_ok hc hrun
    exact calm_of_commits halone hcommits spares_wakes

/-- The thread is in this call. -/
def InCall (io : IOManager.System) (t fd : ℕ) (k : IOManager.Call) : Prop :=
  io.pc t = .growing fd k ∨ ∃ ctx, io.pc t = .holding ctx fd k

/-- No thread but `own` is about to register the fiber. -/
def Others (h : HookedFiber) (own : Option ℕ) (io : IOManager.System) : Prop :=
  ∀ t fd k, InCall io t fd k → h.registers k = true → own = some t

/-- Where a thread that has just moved is. -/
theorem inCall_move {t fd : ℕ} {k : IOManager.Call} {pc : IOManager.Pc} {io' : IOManager} :
    InCall (io.move t pc io') t fd k ↔ pc = .growing fd k ∨ ∃ ctx, pc = .holding ctx fd k := by
  rw [InCall, IOManager.System.move_pc_self]

/-- A thread that is in a call has been in it, or the step is the beginning of the call. -/
theorem inCall_next {t fd : ℕ} {k : IOManager.Call} (hnext : io.next a = some io')
    (hcall : InCall io' t fd k) : InCall io t fd k ∨ a = .call t fd k := by
  by_cases ht : a.thread = some t
  · obtain ⟨-, hnext⟩ := Next.of_next hnext
    cases hnext with
    | found t' fd' k' ctx hpc =>
      obtain rfl := Option.some.inj ht
      rcases inCall_move.mp hcall with hpc' | ⟨ctx', hpc'⟩
      · cases hpc'
      · obtain ⟨rfl, rfl, rfl⟩ := IOManager.Pc.holding.inj hpc'
        exact Or.inr rfl
    | missing t' fd' event cb scheduler fiber hpc =>
      obtain rfl := Option.some.inj ht
      rcases inCall_move.mp hcall with hpc' | ⟨ctx', hpc'⟩
      · obtain ⟨rfl, rfl⟩ := IOManager.Pc.growing.inj hpc'
        exact Or.inr rfl
      · cases hpc'
    | grown t' fd' k' ctx hpc =>
      obtain rfl := Option.some.inj ht
      rcases inCall_move.mp hcall with hpc' | ⟨ctx', hpc'⟩
      · cases hpc'
      · obtain ⟨rfl, rfl, rfl⟩ := IOManager.Pc.holding.inj hpc'
        exact Or.inl (Or.inl hpc)
    | refused | outOfBounds | asserted | failed => exact Or.inl hcall
    | returned | waited | finished | handled =>
      obtain rfl := Option.some.inj ht
      rcases inCall_move.mp hcall with hpc' | ⟨ctx', hpc'⟩
      all_goals cases hpc'
    | closed => cases ht
  · have hsame := IOManager.System.pc_next hnext ht
    rw [InCall, hsame] at hcall
    exact Or.inl hcall

theorem Others.next (hothers : h.Others own io) (hnext : io.next a = some io')
    (ha : ∀ t fd k, a = .call t fd k → h.registers k = true → own = some t) :
    h.Others own io' := by
  intro t fd k hcall hk
  rcases inCall_next hnext hcall with hcall | heq
  · exact hothers t fd k hcall hk
  · exact ha t fd k heq hk

/-- A thread that has run under the mutex is out of its call. -/
theorem not_inCall_critical {t fd : ℕ} {k : IOManager.Call} {fails : Bool}
    (hnext : io.next (.critical t fails) = some io') (hlive : io'.aborted = none) :
    ¬ InCall io' t fd k := by
  obtain ⟨-, hnext⟩ := Next.of_next hnext
  cases hnext with
  | returned =>
    rintro (hpc | ⟨ctx, hpc⟩)
    all_goals
      rw [IOManager.System.move_pc_self] at hpc
      cases hpc
  | asserted => cases hlive

/-! ### The waits of the fiber -/

/-- Every task for the fiber comes right after the registration it uses up. -/
def Paired (log : List WaitEvent) : Prop :=
  ∀ pre post, log = pre ++ .enqueued :: post → ∃ pre', pre = pre' ++ [.added]

theorem Paired.snoc {log : List WaitEvent} (hpaired : Paired log) {e : WaitEvent}
    (he : e = .enqueued → ∃ pre, log = pre ++ [.added]) : Paired (log ++ [e]) := by
  intro pre post heq
  rcases List.eq_nil_or_concat' post with rfl | ⟨post, e', rfl⟩
  · obtain ⟨rfl, hlast⟩ := List.append_inj' heq rfl
    exact he (List.cons.inj hlast).1
  · rw [← List.cons_append, ← List.append_assoc] at heq
    exact hpaired pre post (List.append_inj' heq rfl).1

/-- What is known about the waits of the fiber; `waits` says that it is parked or about to be. -/
structure Waiting (h : HookedFiber) (waits : Bool) (io : IOManager) (log : List WaitEvent) :
    Prop where
  alone : h.Alone io
  /-- The fiber waits, or it has been handed over once, or its event has been deleted. -/
  once : waits = true → h.resumptions io ≤ 1 ∧ (¬ h.Free io → h.resumptions io = 0)
  nothing : waits = false → h.Free io ∧ h.resumptions io = 0
  paired : Paired log
  outstanding : ¬ h.Free io → ∃ pre, log = pre ++ [.added]

/-- What the log has after a step of the `IOManager`. -/
def logged (h : HookedFiber) (io io' : IOManager) (log : List WaitEvent) : List WaitEvent :=
  log ++ List.replicate (h.resumptions io' - h.resumptions io) .enqueued

theorem logged_of_eq {io io' : IOManager} {log : List WaitEvent}
    (heq : h.resumptions io' = h.resumptions io) : h.logged io io' log = log := by
  rw [logged, heq, Nat.sub_self]
  exact List.append_nil log

section

variable {waits : Bool} {io io' : IOManager} {log : List WaitEvent}

/-- **A step** that does not register the fiber keeps what is known. -/
theorem Waiting.calm (hw : h.Waiting waits io log) (hcalm : h.Calm io io') :
    h.Waiting waits io' (h.logged io io' log) := by
  have hfree : ¬ h.Free io' → ¬ h.Free io := fun hnot hfree =>
    hnot fun p e hwaits => hfree p e (hcalm.1 p e hwaits)
  rcases hcalm.2 with heq | ⟨heq, hnot, hfree'⟩
  · rw [logged_of_eq heq]
    constructor
    case alone => exact hcalm.alone hw.alone
    case once =>
      intro h1
      obtain ⟨hle, hzero⟩ := hw.once h1
      rw [heq]
      exact ⟨hle, fun hnot => hzero (hfree hnot)⟩
    case nothing =>
      intro h1
      obtain ⟨hnone, hzero⟩ := hw.nothing h1
      rw [heq]
      exact ⟨fun p e hwaits => hnone p e (hcalm.1 p e hwaits), hzero⟩
    case paired => exact hw.paired
    case outstanding => exact fun hnot => hw.outstanding (hfree hnot)
  · -- the fiber is handed over, so it has been waiting
    have hlog : h.logged io io' log = log ++ [.enqueued] := by
      rw [logged, heq, Nat.add_sub_cancel_left]
      rfl
    rw [hlog]
    constructor
    case alone => exact hfree'.alone
    case once =>
      intro h1
      have hzero := (hw.once h1).2 hnot
      exact ⟨by omega, fun hnot' => absurd hfree' hnot'⟩
    case nothing => exact fun h0 => absurd (hw.nothing h0).1 hnot
    case paired => exact hw.paired.snoc fun _ => hw.outstanding hnot
    case outstanding => exact fun hnot' => absurd hfree' hnot'

/-- `addEvent` has registered the fiber. -/
theorem Waiting.register (hw : h.Waiting false io log) (halone : h.Alone io')
    (heq : h.resumptions io' = h.resumptions io) :
    h.Waiting true io' (h.logged io io' log ++ [.added]) := by
  obtain ⟨-, hzero⟩ := hw.nothing rfl
  rw [logged_of_eq heq]
  constructor
  case alone => exact halone
  case once => exact fun _ => ⟨by omega, fun _ => by omega⟩
  case nothing => exact nofun
  case paired => exact hw.paired.snoc nofun
  case outstanding => exact fun _ => ⟨log, rfl⟩

theorem Waiting.fail (hw : h.Waiting false io log) (hfree : h.Free io')
    (heq : h.resumptions io' = h.resumptions io) :
    h.Waiting false io' (h.logged io io' log) := by
  obtain ⟨-, hzero⟩ := hw.nothing rfl
  rw [logged_of_eq heq]
  constructor
  case alone => exact hfree.alone
  case once => exact nofun
  case nothing => exact fun _ => ⟨hfree, heq.trans hzero⟩
  case paired => exact hw.paired
  case outstanding => exact fun hnot => absurd hfree hnot

/-- A worker takes the task: the fiber waits for nothing any more, and nothing is queued. -/
theorem Waiting.take (hw : h.Waiting true io log) (hmem : h.resume ∈ io.scheduled) :
    h.Waiting false { io with scheduled := io.scheduled.erase h.resume } log := by
  have hperm := List.perm_cons_erase hmem
  have hcount : h.resumptions io =
      h.resumptions { io with scheduled := io.scheduled.erase h.resume } + 1 := by
    have hcountP := hperm.countP_eq fun task => decide (task.fiber = some h.fiber)
    rw [List.countP_cons] at hcountP
    simpa [resumptions, resume] using hcountP
  obtain ⟨hle, hzero⟩ := hw.once rfl
  have hfree : h.Free io := by
    by_contra hnot
    have := hzero hnot
    omega
  constructor
  case alone => exact hw.alone
  case once => exact nofun
  case nothing => exact fun _ => ⟨hfree, by omega⟩
  case paired => exact hw.paired
  case outstanding => exact fun hnot => absurd hfree hnot

end

/-! ### The invariant -/

variable {P : Type*}

/-- The timer of the current round, until it has been cancelled. -/
def Pc.timer : Pc P → Option P
  | adding _ timer | registering _ timer _ | failed timer | added _ timer | parked _ timer
  | woken _ timer => timer
  | outside | calling _ | arming _ | checking _ => none

/-- In `YieldToHold` or on the way there. -/
def Pc.waits : Pc P → Bool
  | added _ _ | parked _ _ => true
  | _ => false

/-- The thread that runs `addEvent` for `do_io` is in that call. -/
def Adding (h : HookedFiber) (io : IOManager.System) : Pc P → Prop
  | .registering c _ t => InCall io t c.fd (h.add c)
  | _ => True

/-- The timer at `p` is one of the fiber's. -/
def Own (timers : TimerManager.System P (Callback Condition)) (p : P) : Prop :=
  (timers.added p).any Callback.isCondition = true

variable [LinearOrder P]

structure Inv (h : HookedFiber) (s : System P) : Prop where
  consistent : s.io.io.Consistent
  timers : s.timers.Inv
  own : ∀ p, Own s.timers p → p ∈ s.timers.tm.timer → s.pc.timer = some p
  waiting : h.Waiting s.pc.waits s.io.io s.log
  adding : h.Adding s.io s.pc
  others : s.io.aborted = none → h.Others s.pc.thread s.io

variable {s s' : System P} {old : Pc P}

theorem Inv.own_at (hinv : h.Inv s) (hpc : s.pc = old) {p : P} (hown : Own s.timers p)
    (hp : p ∈ s.timers.tm.timer) : old.timer = some p := hpc ▸ hinv.own p hown hp

theorem Inv.waiting_at (hinv : h.Inv s) (hpc : s.pc = old) :
    h.Waiting old.waits s.io.io s.log := hpc ▸ hinv.waiting

theorem Inv.others_at (hinv : h.Inv s) (hpc : s.pc = old) (hlive : s.io.aborted = none) :
    h.Others old.thread s.io := hpc ▸ hinv.others hlive

omit [LinearOrder P] in
/-- A step of somebody else keeps the call of `do_io` in progress. -/
theorem Adding.next {io io' : IOManager.System} {a : IOManager.Step} {pc : Pc P}
    (hadding : h.Adding io pc) (hnext : io.next a = some io')
    (ha : (∀ t, pc.thread = some t → a.thread ≠ some t) ∨ ∃ t fd k, a = .call t fd k) :
    h.Adding io' pc := by
  cases pc with
  | registering c timer t =>
    have hadding : InCall io t c.fd (h.add c) := hadding
    have hsame : io'.pc t = io.pc t := by
      rcases ha with ha | ⟨t', fd, k, rfl⟩
      · exact IOManager.System.pc_next hnext (ha t rfl)
      · refine IOManager.System.pc_next_of_busy hnext ?_ (Or.inl ⟨t', fd, k, rfl⟩)
        rcases hadding with hpc | ⟨ctx, hpc⟩
        all_goals
          rw [hpc]
          rfl
    show InCall io' t c.fd (h.add c)
    rwa [InCall, hsame]
  | _ => trivial

/-- A step of the `IOManager` other than that of `addEvent` under the mutex. -/
theorem Inv.calm (hinv : h.Inv s) (hlive : s.io.aborted = none) {a : IOManager.Step}
    {io : IOManager.System} (hnext : s.io.next a = some io)
    (ha : ∀ t fails, a = .critical t fails → s.pc.thread ≠ some t) : h.Calm s.io.io io.io := by
  refine calm_next hinv.consistent hinv.waiting.alone ?_ hnext
  intro t fails ctx fd k heq hpc
  by_contra hk
  rw [Bool.not_eq_false] at hk
  -- only the thread of `do_io` may register the fiber
  exact ha t fails heq (hinv.others hlive t fd k (Or.inr ⟨ctx, hpc⟩) hk)

/-- A step of somebody else, or the beginning of a call. -/
theorem Inv.elsewhere (hinv : h.Inv s) (hlive : s.io.aborted = none) {a : IOManager.Step}
    {io : IOManager.System} {callback : P → CallbackPc Empty} (hnext : s.io.next a = some io)
    (hcall : ∀ t fd k, a = .call t fd k → h.registers k = false)
    (hthread : (∀ t, s.pc.thread = some t → a.thread ≠ some t) ∨ ∃ t fd k, a = .call t fd k) :
    h.Inv { s.setIo h io with callback := callback } where
  consistent := IOManager.System.consistent_next hinv.consistent hnext
  timers := hinv.timers
  own := hinv.own
  waiting := by
    refine hinv.waiting.calm (hinv.calm hlive hnext fun t fails heq hown => ?_)
    subst heq
    rcases hthread with hthread | ⟨t', fd', k', heq⟩
    · exact hthread t hown rfl
    · cases heq
  adding := hinv.adding.next hnext hthread
  others hlive' := by
    refine (hinv.others hlive).next hnext fun t fd k ha hk => ?_
    rw [hcall t fd k ha] at hk
    cases hk

/-- A step that leaves the `IOManager` and the timers alone. -/
theorem Inv.move (hinv : h.Inv s) (hpc : s.pc = old) (pc : Pc P)
    (hwaits : pc.waits = old.waits) (hthread : pc.thread = old.thread)
    (htimer : pc.timer = old.timer) (hadding : h.Adding s.io pc) {calls : ℕ} {cancelled : Bool}
    {callback : P → CallbackPc Empty} :
    h.Inv { s with pc := pc, calls := calls, cancelled := cancelled, callback := callback } where
  consistent := hinv.consistent
  timers := hinv.timers
  own p hown hp := htimer.trans (hinv.own_at hpc hown hp)
  waiting := by
    show h.Waiting pc.waits s.io.io s.log
    rw [hwaits]
    exact hinv.waiting_at hpc
  adding := hadding
  others hlive := by
    show h.Others pc.thread s.io
    rw [hthread]
    exact hinv.others_at hpc hlive

/-- What the timers of the fiber are after a step that adds none for it. -/
theorem own_next {timers timers' : TimerManager.System P (Callback Condition)}
    {a : TimerManager.Step P (Callback Condition)} (hinv : timers.Inv)
    (hnext : timers.next a = some timers')
    {p : P} (ha : ∀ ms cb recurring now, a = .addTimer p ms cb recurring now →
      cb.isCondition = false) (hown : Own timers' p) (hp : p ∈ timers'.tm.timer) :
    Own timers p ∧ p ∈ timers.tm.timer := by
  have hadded : timers'.added p = timers.added p := by
    rcases TimerManager.System.added_next hnext (q := p) with
      hsame | ⟨ms, cb, recurring, now, heq, -, hcb, -⟩
    · exact hsame
    · rw [Own, hcb] at hown
      exact absurd hown (Bool.eq_false_iff.mp (ha ms cb recurring now heq))
  rw [Own, hadded] at hown
  refine ⟨hown, ?_⟩
  rcases hinv.mem_next hnext hp with hp | ⟨ms, cb, recurring, now, heq⟩
  · exact hp
  · -- a timer that is added now has not been added before
    subst heq
    rw [(TimerManager.System.addTimer_next hnext).1] at hown
    cases hown

/-- The timer of a round is out of the set when the round is over. -/
theorem Inv.disarm (hinv : h.Inv s) {timer : Option P} {pc : Pc P}
    (hpc : (s.pc = .failed timer ∧ pc = .outside) ∨
      ∃ c, s.pc = .woken c timer ∧ pc = .checking c)
    (hnext : s.disarm timer pc = some s') : h.Inv s' := by
  have hold : s.pc.waits = false ∧ s.pc.thread = none ∧ s.pc.timer = timer := by
    rcases hpc with ⟨hpc, -⟩ | ⟨c, hpc, -⟩
    all_goals
      rw [hpc]
      exact ⟨rfl, rfl, rfl⟩
  have hnew : pc.waits = false ∧ pc.thread = none ∧ h.Adding s.io pc := by
    rcases hpc with ⟨-, rfl⟩ | ⟨c, -, rfl⟩
    all_goals exact ⟨rfl, rfl, trivial⟩
  unfold System.disarm at hnext
  split at hnext
  · obtain rfl := Option.some.inj hnext
    rcases hpc with ⟨hpc, rfl⟩ | ⟨c, hpc, rfl⟩
    · exact hinv.move hpc .outside rfl rfl rfl trivial
    · exact hinv.move hpc (.checking c) rfl rfl rfl trivial
  next p =>
    obtain ⟨timers, htimers, rfl⟩ := Option.map_eq_some_iff.mp hnext
    constructor
    case consistent => exact hinv.consistent
    case timers => exact hinv.timers.next htimers
    case own =>
      intro q hown hq
      obtain ⟨hown', hq'⟩ := own_next hinv.timers htimers (fun _ _ _ _ heq => by cases heq) hown hq
      have heq := hold.2.2.symm.trans (hinv.own q hown' hq')
      obtain rfl := Option.some.inj heq
      exact absurd hq (hinv.timers.not_mem_cancel htimers)
    case waiting =>
      have hwaiting := hinv.waiting
      rw [hold.1] at hwaiting
      show h.Waiting pc.waits s.io.io s.log
      rwa [hnew.1]
    case adding => exact hnew.2.2
    case others =>
      intro hlive
      have hothers := hinv.others hlive
      rw [hold.2.1] at hothers
      show h.Others pc.thread s.io
      rwa [hnew.2.1]

/-- `addEvent` begins. -/
theorem Inv.look (hinv : h.Inv s) (hlive : s.io.aborted = none) {t : ℕ} {c : HookedCall}
    {timer : Option P} {io : IOManager.System} (hpc : s.pc = .adding c timer)
    (hnext : s.io.next (.call t c.fd (h.add c)) = some io) :
    h.Inv { s.setIo h io with pc := .registering c timer t } where
  consistent := IOManager.System.consistent_next hinv.consistent hnext
  timers := hinv.timers
  own _ hown hp := hinv.own_at hpc hown hp
  waiting :=
    (hinv.waiting_at hpc).calm (hinv.calm hlive hnext fun _ _ heq => by cases heq)
  adding := by
    show InCall io t c.fd (h.add c)
    obtain ⟨-, hstep⟩ := Next.of_next hnext
    cases hstep with
    | found _ _ _ ctx => exact Or.inr ⟨ctx, IOManager.System.move_pc_self⟩
    | missing => exact Or.inl IOManager.System.move_pc_self
    | refused _ _ _ _ _ hc => exact (hc _ _ _ _ rfl).elim
  others _ := by
    have hmine : h.Others (some t) s.io := fun t' fd k hcall hk =>
      absurd (hinv.others_at hpc hlive t' fd k hcall hk) nofun
    refine hmine.next hnext fun t' fd k heq _ => ?_
    cases heq
    rfl

/-- `addEvent` resizes the table. -/
theorem Inv.grow (hinv : h.Inv s) (hlive : s.io.aborted = none) {t : ℕ} {c : HookedCall}
    {timer : Option P} {io : IOManager.System} (hpc : s.pc = .registering c timer t)
    (hnext : s.io.next (.grow t) = some io) : h.Inv (s.setIo h io) where
  consistent := IOManager.System.consistent_next hinv.consistent hnext
  timers := hinv.timers
  own := hinv.own
  waiting := hinv.waiting.calm (hinv.calm hlive hnext fun _ _ heq => by cases heq)
  adding := by
    have hadding := hinv.adding
    show h.Adding io s.pc
    rw [hpc] at hadding ⊢
    have hcall : InCall s.io t c.fd (h.add c) := hadding
    show InCall io t c.fd (h.add c)
    obtain ⟨-, hstep⟩ := Next.of_next hnext
    cases hstep with
    | grown _ fd k ctx hpc' =>
      rcases hcall with hgrowing | ⟨ctx', hholding⟩
      · obtain ⟨rfl, rfl⟩ := IOManager.Pc.growing.inj (hpc'.symm.trans hgrowing)
        exact Or.inr ⟨ctx, IOManager.System.move_pc_self⟩
      · cases hpc'.symm.trans hholding
    | outOfBounds => exact hcall
  others _ := (hinv.others hlive).next hnext fun _ _ _ heq => by cases heq

/-- `addEvent` runs under the mutex of the context. -/
theorem Inv.register (hinv : h.Inv s) (hlive : s.io.aborted = none) {t : ℕ} {fails : Bool}
    {c : HookedCall} {timer : Option P} {io : IOManager.System}
    (hpc : s.pc = .registering c timer t) (hnext : s.io.next (.critical t fails) = some io) :
    h.Alone io.io ∧ (s.io.returns t fails = false → h.Free io.io) ∧
      h.resumptions io.io = h.resumptions s.io.io ∧ (io.aborted = none → h.Others none io) := by
  have hadding := hinv.adding
  rw [hpc] at hadding
  obtain ⟨hfree, -⟩ := (hinv.waiting_at hpc).nothing rfl
  have hothers : io.aborted = none → h.Others none io := by
    intro hlive' t' fd k hcall hk
    rcases inCall_next hnext hcall with hcall' | heq
    · obtain rfl := Option.some.inj (hinv.others_at hpc hlive t' fd k hcall' hk)
      exact absurd hcall (not_inCall_critical hnext hlive')
    · cases heq
  obtain ⟨-, hstep⟩ := Next.of_next hnext
  cases hstep with
  | returned _ ctx fd k _ b io' hpc' hrun =>
    have hreturns : s.io.returns t fails = b := by
      simp only [IOManager.System.returns, hpc', hrun]
    rcases hadding with hgrowing | ⟨ctx', hholding⟩
    · cases hpc'.symm.trans hgrowing
    · obtain ⟨rfl, rfl, rfl⟩ := IOManager.Pc.holding.inj (hpc'.symm.trans hholding)
      have hcommits := IOManager.Call.run_commits hinv.consistent hrun
      obtain ⟨halone, hfails, heq⟩ := addEvent_free hfree hcommits
      exact ⟨halone, fun hfalse => hfails (hreturns.symm.trans hfalse), heq, hothers⟩
  | asserted => exact ⟨hfree.alone, fun _ => hfree, rfl, hothers⟩

omit [LinearOrder P] in
/-- What another thread does under a mutex is not what `do_io` does. -/
theorem thread_of_foreign {pc : Pc P} {a : IOManager.Step} (ha : h.Foreign pc a = true) {t : ℕ}
    (ht : pc.thread = some t) : a.thread ≠ some t := by
  intro heq
  unfold Foreign at ha
  rw [ht, heq] at ha
  simp at ha

/-- The timer of a round is added. -/
theorem Inv.arm (hinv : h.Inv s) {p : P} {ms now : ℕ} {cb : Callback Condition} {c : HookedCall}
    {timers : TimerManager.System P (Callback Condition)} (hpc : s.pc = .arming c)
    (hnext : s.timers.next (.addTimer p ms cb false now) = some timers) :
    h.Inv { s with timers := timers, pc := .adding c (some p) } where
  consistent := hinv.consistent
  timers := hinv.timers.next hnext
  own q hown hq := by
    by_cases hqp : q = p
    · rw [hqp]
      rfl
    · -- the last round has left no timer in the set
      obtain ⟨hown', hq'⟩ := own_next hinv.timers hnext (fun _ _ _ _ heq => by
        cases heq
        exact absurd rfl hqp) hown hq
      cases hinv.own_at hpc hown' hq'
  waiting := by
    have hwaiting := hinv.waiting_at hpc
    exact hwaiting
  adding := trivial
  others hlive := by
    have hothers := hinv.others_at hpc hlive
    exact hothers

/-- `addEvent` returns, and leaves the mutex with what it has registered. -/
theorem Inv.added (hinv : h.Inv s) {a : IOManager.Step} {t : ℕ} {c : HookedCall}
    {timer : Option P} {pc : Pc P} {io : IOManager.System} {log : List WaitEvent}
    (hpc : s.pc = .registering c timer t) (hnext : s.io.next a = some io)
    (htimer : pc.timer = timer) (hwaiting : h.Waiting pc.waits io.io log)
    (hadding : h.Adding io pc) (hothers : io.aborted = none → h.Others pc.thread io) :
    h.Inv { s.setIo h io with pc := pc, log := log } where
  consistent := IOManager.System.consistent_next hinv.consistent hnext
  timers := hinv.timers
  own _ hown hp := htimer.trans (hinv.own_at hpc hown hp)
  waiting := hwaiting
  adding := hadding
  others := hothers

/-- A worker takes the fiber up again. -/
theorem Inv.wake (hinv : h.Inv s) {c : HookedCall} {timer : Option P}
    (hpc : s.pc = .parked c timer) (hmem : h.resume ∈ s.io.io.scheduled) :
    h.Inv { s with io := s.io.take h.resume, pc := .woken c timer } where
  consistent := hinv.consistent
  timers := hinv.timers
  own _ hown hp := hinv.own_at hpc hown hp
  waiting := (hinv.waiting_at hpc).take hmem
  adding := trivial
  others hlive := by
    have hothers := hinv.others_at hpc hlive
    exact hothers

/-- A step of the `TimerManager` that is not one of `do_io`. -/
theorem Inv.foreignTimer (hinv : h.Inv s) {a : TimerManager.Step P (Callback Condition)}
    {timers : TimerManager.System P (Callback Condition)} {callback : P → CallbackPc Empty}
    (ha : ForeignTimer s.timers.added a = true) (hnext : s.timers.next a = some timers) :
    h.Inv { s with timers := timers, callback := callback } where
  consistent := hinv.consistent
  timers := hinv.timers.next hnext
  own p hown hp := by
    have hother : ∀ ms cb recurring now, a = .addTimer p ms cb recurring now →
        cb.isCondition = false := by
      intro ms cb recurring now heq
      subst heq
      simpa [ForeignTimer] using ha
    obtain ⟨hown', hp'⟩ := own_next hinv.timers hnext hother hown hp
    exact hinv.own p hown' hp'
  waiting := hinv.waiting
  adding := hinv.adding
  others := hinv.others

/-- **Step lemma.** -/
theorem Inv.next {a : Step P} (hinv : h.Inv s) (hnext : s.next h a = some s') : h.Inv s' := by
  obtain ⟨hlive, hnext⟩ := System.Next.of_next hnext
  cases hnext with
  | entered c hpc => exact hinv.move hpc (.calling c) rfl rfl rfl trivial
  | called r c pc hpc hto =>
    rcases hto with rfl | rfl | rfl
    · exact hinv.move hpc .outside rfl rfl rfl trivial
    · exact hinv.move hpc (.calling c) rfl rfl rfl trivial
    · exact hinv.move hpc (.arming c) rfl rfl rfl trivial
  | armed p now ms c timers hpc htimers => exact hinv.arm hpc htimers
  | unarmed c hpc => exact hinv.move hpc (.adding c none) rfl rfl rfl trivial
  | looked t c timer io hpc hio => exact hinv.look hlive hpc hio
  | grown t c timer io hpc hio => exact hinv.grow hlive hpc hio
  | registered t fails c timer io hpc hio hreturns =>
    obtain ⟨halone, -, heq, hothers⟩ := hinv.register hlive hpc hio
    have hwaiting := (hinv.waiting_at hpc).register halone heq
    exact hinv.added hpc hio rfl hwaiting trivial hothers
  | refused t fails c timer io hpc hio hreturns =>
    obtain ⟨-, hfree, heq, hothers⟩ := hinv.register hlive hpc hio
    have hwaiting := (hinv.waiting_at hpc).fail (hfree hreturns) heq
    exact hinv.added hpc hio rfl hwaiting trivial hothers
  | parked c timer hpc => exact hinv.move hpc (.parked c timer) rfl rfl rfl trivial
  | woken c timer hpc hmem => exact hinv.wake hpc hmem
  | disarmed timer pc s' hpc hdisarm => exact hinv.disarm hpc hdisarm
  | checked c pc hpc hto =>
    rcases hto with rfl | rfl
    · exact hinv.move hpc .outside rfl rfl rfl trivial
    · exact hinv.move hpc (.calling c) rfl rfl rfl trivial
  | foreign a timers ha htimers => exact hinv.foreignTimer ha htimers
  | tested p passes pc => exact hinv.move rfl s.pc rfl rfl rfl hinv.adding
  | set p cancelled pc => exact hinv.move rfl s.pc rfl rfl rfl hinv.adding
  | cancelled p t fd event io hio =>
    refine hinv.elsewhere hlive hio (fun t' fd' k heq => ?_) (Or.inr ⟨t, fd, _, rfl⟩)
    cases heq
    rfl
  | other a io ha hio =>
    refine hinv.elsewhere hlive hio (fun t fd k heq => ?_) ?_
    · subst heq
      unfold Foreign at ha
      have hk : (!h.registers k) = true := (Bool.and_eq_true _ _ ▸ ha).2
      simpa using hk
    · exact Or.inl fun t ht => thread_of_foreign ha ht

/-- **The fiber is handed over only by taking it out of its event context.** -/
theorem Inv.enqueued {a : Step P} (hinv : h.Inv s) (hnext : s.next h a = some s')
    (hlt : h.resumptions s.io.io < h.resumptions s'.io.io) :
    h.resumptions s'.io.io = h.resumptions s.io.io + 1 ∧ ¬ h.Free s.io.io ∧ h.Free s'.io.io := by
  obtain ⟨hlive, hnext⟩ := System.Next.of_next hnext
  have hcalm : ∀ {io : IOManager}, h.Calm s.io.io io →
      h.resumptions s.io.io < h.resumptions io →
      h.resumptions io = h.resumptions s.io.io + 1 ∧ ¬ h.Free s.io.io ∧ h.Free io := by
    intro io hcalm hlt
    refine hcalm.2.resolve_left fun heq => ?_
    rw [heq] at hlt
    exact lt_irrefl _ hlt
  cases hnext with
  | looked t c timer io hpc hio | grown t c timer io hpc hio =>
    exact hcalm (hinv.calm hlive hio fun _ _ heq => by cases heq) hlt
  | cancelled p t fd event io hio =>
    exact hcalm (hinv.calm hlive hio fun _ _ heq => by cases heq) hlt
  | other a io ha hio =>
    refine hcalm (hinv.calm hlive hio fun t fails heq ht => ?_) hlt
    exact thread_of_foreign ha ht (by rw [heq]; rfl)
  | registered t fails c timer io hpc hio | refused t fails c timer io hpc hio =>
    exact absurd (hinv.register hlive hpc hio).2.2.1 (ne_of_gt hlt)
  | woken c timer hpc hmem =>
    have hle : h.resumptions (s.io.take h.resume).io ≤ h.resumptions s.io.io :=
      List.erase_sublist.countP_le
    exact absurd hlt (not_lt_of_ge hle)
  | disarmed timer pc s' hpc hdisarm =>
    unfold System.disarm at hdisarm
    split at hdisarm
    · obtain rfl := Option.some.inj hdisarm
      exact absurd hlt (lt_irrefl _)
    · obtain ⟨timers, -, rfl⟩ := Option.map_eq_some_iff.mp hdisarm
      exact absurd hlt (lt_irrefl _)
  | _ => exact absurd hlt (lt_irrefl _)

theorem inv_init (mem : P → Timer (Callback Condition)) (now : ℕ) :
    h.Inv (System.init mem now) := by
  have hfree : h.Free IOManager.new := by
    intro p e hw
    -- every context of the table is as it was constructed
    have hold := (calm_contextResize (h := h) _ 32).1 p e hw
    cases e <;> cases hold
  constructor
  case consistent => exact IOManager.new_consistent
  case timers => exact TimerManager.System.inv_init mem now
  case own => exact fun p hown => by cases hown
  case waiting =>
    constructor
    case alone => exact hfree.alone
    case once => exact nofun
    case nothing => exact fun _ => ⟨hfree, rfl⟩
    case paired =>
      intro pre post heq
      cases pre <;> cases heq
    case outstanding => exact fun hnot => absurd hfree hnot
  case adding => trivial
  case others =>
    rintro - t fd k (hpc | ⟨ctx, hpc⟩)
    all_goals cases hpc

/-- **Each hooked wait is resumed at most once and leaves nothing behind**, in every run.

Every task for the fiber uses up a registration of its own that is in its event context at that
moment, and when `do_io` has returned none of its timers is in the set, none of its registrations
is in a context, and no task for the fiber is queued. -/
theorem once_of_run {mem : P → Timer (Callback Condition)} {now : ℕ} {as : List (Step P)}
    (hrun : Transition.run (System.next h) (System.init mem now) as = some s) :
    Paired s.log ∧
      (∀ a s', s.next h a = some s' → h.resumptions s.io.io < h.resumptions s'.io.io →
        h.resumptions s'.io.io = h.resumptions s.io.io + 1 ∧
          ¬ h.Free s.io.io ∧ h.Free s'.io.io) ∧
      (s.pc = .outside →
        (∀ p, Own s.timers p → p ∉ s.timers.tm.timer) ∧ h.Free s.io.io ∧
          h.resumptions s.io.io = 0) := by
  have hinv : h.Inv s := Transition.invariant_of_run h.Inv
    (fun _ _ _ hinv hnext => hinv.next hnext) (inv_init mem now) hrun
  refine ⟨hinv.waiting.paired, fun a s' hnext hlt => hinv.enqueued hnext hlt, fun hpc => ?_⟩
  obtain ⟨hfree, hzero⟩ := hinv.waiting.nothing (by rw [hpc]; rfl)
  refine ⟨fun p hown hp => ?_, hfree, hzero⟩
  have htimer := hinv.own p hown hp
  rw [hpc] at htimer
  cases htimer

/-- The callback of the first round runs when the call is in its second round. -/
def lateCallback : List (Step ℕ) :=
  [.enter ⟨3, .READ, some 100⟩, .call .EAGAIN, .arm 0 1, .look 1, .register false, .park,
    .timer (.listTest 200), .timer (.listTake 200 9),
    .other (.wait 2 [(3, ⟨true, false⟩, false)]), .other (.handle 2 false),
    .other (.handle 2 false), .wake, .disarm, .check, .call .EAGAIN, .arm 1 201, .look 1,
    .register false, .park, .test 0 false, .set 0, .cancel 0 2, .other (.critical 2 false), .wake,
    .disarm, .check]

theorem once_of_run_late_callback :
    ∃ s : System ℕ,
      Transition.run (System.next ⟨5, 0⟩) (System.init (fun _ => ⟨false, 0, 0, none⟩) 0)
          lateCallback = some s ∧
        s.pc = .outside ∧ s.log = [.added, .enqueued, .added, .enqueued] ∧ Paired s.log ∧
        Free ⟨5, 0⟩ s.io.io := by
  refine ⟨_, rfl, rfl, rfl, ?_⟩
  have hall := @once_of_run ⟨5, 0⟩ ℕ _ _ (fun _ => ⟨false, 0, 0, none⟩) 0 lateCallback rfl
  exact ⟨hall.1, (hall.2.2 rfl).2.1⟩

end Muhui.HookedFiber
