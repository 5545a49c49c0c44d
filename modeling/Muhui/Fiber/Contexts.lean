/-
  `fiber.cc`: how threads switch between fibers.

  A thread executes the code of some fiber, `running`, which no variable of the program names.  The
  program keeps `t_fiber` for it, and in `m_ctx` of each fiber a place where `swapcontext` goes on.
  A context is modelled by the fiber whose code goes on there; it is `none` where that code has gone
  on since, so that to switch there is undefined.

  Each call is one step, of any thread, so a run is a list of threads with their calls.
-/
import Muhui.Scheduler.Basic

namespace Muhui

namespace Fiber

/-- A fiber: the main fiber of a thread, or the one that the constructor made as the `n`-th. -/
inductive Id
  | main (thread : ℕ)
  | made (n : ℕ)
  deriving DecidableEq

inductive Fault
  /-- A null pointer is dereferenced. -/
  | nullFiber
  /-- A `MUHUI_ASSERT` fails. -/
  | assertion
  /-- A switch to a context whose code has gone on. -/
  | staleContext
  deriving DecidableEq

/-- What belongs to a thread. -/
structure Locals where
  t_fiber : Option Id
  t_threadFiber : Option Id
  /-- `t_fiber` of `scheduler.cc`, which `Scheduler::GetMainFiber` returns. -/
  mainFiber : Option Id
  running : Id

/-- What the code that a thread executes does next. -/
inductive Call
  | getThis
  /-- `Fiber::Fiber(cb)` -/
  | new
  | reset (f : Id)
  | swapIn (f : Id)
  | call (f : Id)
  | yieldToHold
  | yieldToReady
  /-- The callback returns or throws. -/
  | finish (throws : Bool)
  /-- The constructor of a scheduler with `use_caller`. -/
  | scheduler
  /-- The beginning of `Scheduler::run`, in a thread of its own. -/
  | run
  /-- What `Scheduler::run` makes of the state of a fiber that has switched back. -/
  | settle (f : Id)

end Fiber

open Muhui.Fiber

structure Fibers where
  thread : ℕ → Locals
  /-- How many fibers the constructor has made. -/
  made : ℕ
  m_state : Id → FiberState
  m_ctx : Id → Option Id
  /-- The code of the fiber is `CallerMainFunc`, else `MainFunc`. -/
  useCaller : Id → Bool
  /-- `cur` in the code of the fiber, once it has begun. -/
  cur : Id → Option Id
  /-- The code of the fiber is behind its last switch. -/
  isOver : Id → Bool
  fault : Option Fault

namespace Fibers

/-- Threads that have not made a fiber. -/
def new : Fibers where
  thread t := { t_fiber := none, t_threadFiber := none, mainFiber := none, running := .main t }
  made := 0
  m_state _ := .INIT
  m_ctx _ := none
  useCaller _ := false
  cur _ := none
  isOver _ := false
  fault := none

variable (s : Fibers) (t : ℕ)

def fail (e : Fault) : Fibers := { s with fault := some e }

def setState (f : Id) (v : FiberState) : Fibers :=
  { s with m_state := Function.update s.m_state f v }

/-- `Fiber::SetThis` -/
def setThis (f : Option Id) : Fibers :=
  { s with thread := Function.update s.thread t { s.thread t with t_fiber := f } }

/-- The fiber has been made. -/
def Exists : Id → Prop
  | .main t => (s.thread t).t_threadFiber.isSome = true
  | .made n => n < s.made

instance (f : Id) : Decidable (s.Exists f) := by
  cases f <;> unfold Exists <;> infer_instance

/-- The thread goes on in the code of `g`, so what other contexts hold of it is stale.  Code that
begins asks for its fiber. -/
def resume (g : Id) : Fibers :=
  { s with
    thread := Function.update s.thread t { s.thread t with running := g }
    m_ctx := fun f => if s.m_ctx f = some g then none else s.m_ctx f
    cur := Function.update s.cur g ((s.cur g).or (s.thread t).t_fiber) }

/-- `swapcontext(&a->m_ctx, &b->m_ctx)`; behind the last switch of some code there is an assertion
that fails. -/
def swapcontext (a b : Id) : Fibers :=
  let s := { s with m_ctx := Function.update s.m_ctx a (some (s.thread t).running) }
  match s.m_ctx b with
  | none => s.fail .staleContext
  | some g => if s.isOver g then s.fail .assertion else s.resume t g

/-- `Fiber::Fiber()`, when `GetThis` finds no fiber of the thread. -/
def makeMain : Fibers :=
  { s.setState (.main t) .EXEC with
    thread := Function.update s.thread t
      { s.thread t with t_fiber := some (.main t), t_threadFiber := some (.main t) } }

/-- `Fiber::GetThis` -/
def getThis : Id × Fibers :=
  ((s.thread t).t_fiber.elim (.main t, s.makeMain t) fun f => (f, s))

/-- `Fiber::Fiber(cb, stacksize, use_caller)` -/
def make (use_caller : Bool) : Fibers :=
  let f := Id.made s.made
  { s with
    made := s.made + 1
    m_state := Function.update s.m_state f .INIT
    m_ctx := Function.update s.m_ctx f (some f)
    useCaller := Function.update s.useCaller f use_caller
    cur := Function.update s.cur f none
    isOver := Function.update s.isOver f false }

/-- `Fiber::reset`; the stack is used again, so what was to go on there is lost. -/
def reset (f : Id) : Fibers :=
  if s.m_state f = .INIT ∨ s.m_state f = .TERM ∨ s.m_state f = .EXCEPT then
    { s with
      m_state := Function.update s.m_state f .INIT
      m_ctx := fun g => if g = f then some f else if s.m_ctx g = some f then none else s.m_ctx g
      useCaller := Function.update s.useCaller f false
      cur := Function.update s.cur f none
      isOver := Function.update s.isOver f false }
  else s.fail .assertion

/-- `Fiber::swapIn` -/
def swapIn (f : Id) : Fibers :=
  let s := s.setThis t (some f)
  if s.m_state f = .EXEC then s.fail .assertion
  else
    let s := s.setState f .EXEC
    (s.thread t).mainFiber.elim (s.fail .nullFiber) fun m => s.swapcontext t m f

/-- `Fiber::swapOut` -/
def swapOut (f : Id) : Fibers :=
  let s := s.setThis t (s.thread t).mainFiber
  (s.thread t).mainFiber.elim (s.fail .nullFiber) fun m => s.swapcontext t f m

/-- `Fiber::call` -/
def call (f : Id) : Fibers :=
  let s := (s.setThis t (some f)).setState f .EXEC
  (s.thread t).t_threadFiber.elim (s.fail .nullFiber) fun m => s.swapcontext t m f

/-- `Fiber::back` -/
def back (f : Id) : Fibers :=
  let s := s.setThis t (s.thread t).t_threadFiber
  (s.thread t).t_threadFiber.elim (s.fail .nullFiber) fun m => s.swapcontext t f m

/-- `Fiber::YieldToHold` and `Fiber::YieldToReady` -/
def yieldTo (v : FiberState) : Fibers :=
  let r := s.getThis t
  if r.2.m_state r.1 = .EXEC then (r.2.setState r.1 v).swapOut t r.1 else r.2.fail .assertion

/-- The end of `Fiber::MainFunc` and of `Fiber::CallerMainFunc`; the function of a thread has no
such end. -/
def finish (throws : Bool) : Fibers :=
  match (s.thread t).running with
  | .main _ => s
  | .made n =>
    (s.cur (.made n)).elim s fun c =>
      let s := { s.setState c (if throws then .EXCEPT else .TERM) with
        isOver := Function.update s.isOver (.made n) true }
      if s.useCaller (.made n) then s.back t c else s.swapOut t c

/-- The thread gets a scheduler whose main fiber is `m`. -/
def setMain (m : Id) : Fibers :=
  { s with thread := Function.update s.thread t { s.thread t with mainFiber := some m } }

/-- The beginning of `Scheduler::run`. -/
def beginRun : Fibers :=
  let r := s.getThis t
  r.2.setMain t r.1

/-- `Scheduler::Scheduler` with `use_caller`: the root fiber. -/
def makeRoot : Fibers :=
  let s := (s.getThis t).2
  let root := Id.made s.made
  (s.make true).setMain t root

/-- What `Scheduler::run` does with the state of a fiber that has switched back. -/
def settle (f : Id) : Fibers :=
  if s.m_state f = .READY ∨ s.m_state f = .TERM ∨ s.m_state f = .EXCEPT then s
  else s.setState f .HOLD

/-- One step.  A call on a fiber that has not been made is no step. -/
def step (a : ℕ × Call) : Fibers :=
  if s.fault.isSome then s
  else
    match a.2 with
    | .getThis => (s.getThis a.1).2
    | .new => s.make false
    | .reset f => if s.Exists f then s.reset f else s
    | .swapIn f => if s.Exists f then s.swapIn a.1 f else s
    | .call f => if s.Exists f then s.call a.1 f else s
    | .yieldToHold => s.yieldTo a.1 .HOLD
    | .yieldToReady => s.yieldTo a.1 .READY
    | .finish throws => s.finish a.1 throws
    | .scheduler => s.makeRoot a.1
    | .run => s.beginRun a.1
    | .settle f => if s.Exists f then s.settle f else s

/-! ### What the program knows -/

variable {s t}

/-- `t_fiber` is the fiber that runs, the contexts of the others continue their own code, and those
of the fibers that run are stale. -/
structure Orderly (s : Fibers) : Prop where
  fault : s.fault = none
  names : ∀ t, ((s.thread t).t_fiber = some (s.thread t).running ∧
    (s.thread t).t_threadFiber = some (.main t)) ∨ s.thread t = new.thread t
  own : ∀ f, s.Exists f → (∀ t, (s.thread t).running ≠ f) → s.m_ctx f = some f
  busy : ∀ t, s.m_ctx (s.thread t).running = none
  apart : ∀ t t', (s.thread t).running = (s.thread t').running → t = t'
  alive : ∀ t, s.isOver (s.thread t).running = false
  born : ∀ t f, (s.thread t).t_fiber = some f ∨ (s.thread t).mainFiber = some f → s.Exists f
  entered : ∀ n, s.cur (.made n) = none ∨ s.cur (.made n) = some (.made n)
  begun : ∀ t n, (s.thread t).running = .made n → s.cur (.made n) = some (.made n)

/-- Nobody else runs the fiber, and its code is not over. -/
def CanResume (s : Fibers) (t : ℕ) (f : Id) : Prop :=
  s.isOver f = false ∧ ∀ t', (s.thread t').running = f → t' = t

/-- The calls that keep order. -/
def Meets (s : Fibers) (a : ℕ × Call) : Prop :=
  match a.2 with
  | .reset f =>
    s.Exists f → (s.m_state f = .INIT ∨ s.m_state f = .TERM ∨ s.m_state f = .EXCEPT) ∧
      ∀ t, (s.thread t).running ≠ f
  | .swapIn f =>
    s.Exists f → s.m_state f ≠ .EXEC ∧
      (s.thread a.1).mainFiber = some (s.thread a.1).running ∧ s.CanResume a.1 f
  | .call f =>
    s.Exists f →
      (s.thread a.1).t_threadFiber = some (s.thread a.1).running ∧ s.CanResume a.1 f
  | .yieldToHold | .yieldToReady =>
    s.m_state (s.thread a.1).running = .EXEC ∧
      ∃ m, (s.thread a.1).mainFiber = some m ∧ s.CanResume a.1 m
  | .finish _ =>
    ∀ n, (s.thread a.1).running = .made n →
      ∃ m, (if s.useCaller (.made n) then (s.thread a.1).t_threadFiber
          else (s.thread a.1).mainFiber) = some m ∧
        m ≠ .made n ∧ s.CanResume a.1 m
  | _ => True

/-! ### One switch -/

/-- The state in which a thread is about to switch to `b`. -/
def leaving (s : Fibers) (t : ℕ) (b : Id) (m_state : Id → FiberState) (isOver : Id → Bool) :
    Fibers :=
  { s.setThis t (some b) with m_state, isOver }

/-- The same thread in the code of `g`, with the place it came from in the context of `a`. -/
def switched (s : Fibers) (t : ℕ) (a b g : Id) (m_state : Id → FiberState) (isOver : Id → Bool) :
    Fibers :=
  { s.leaving t b m_state isOver with
    m_ctx := Function.update s.m_ctx a (some (s.thread t).running) }.resume t g

section Switch

variable {a b g : Id} {m_state : Id → FiberState} {isOver : Id → Bool}

theorem thread_switched (t' : ℕ) :
    (s.switched t a b g m_state isOver).thread t' =
      if t' = t then { s.thread t with t_fiber := some b, running := g } else s.thread t' := by
  show Function.update (Function.update s.thread t _) t _ t' = _
  rw [Function.update_idem, Function.update_apply]
  simp only [leaving, setThis, Function.update_self]

theorem m_ctx_switched (f : Id) :
    (s.switched t a b g m_state isOver).m_ctx f =
      if Function.update s.m_ctx a (some (s.thread t).running) f = some g then none
      else Function.update s.m_ctx a (some (s.thread t).running) f :=
  rfl

theorem cur_switched (f : Id) :
    (s.switched t a b g m_state isOver).cur f =
      if f = g then (s.cur g).or (some b) else s.cur f := by
  show Function.update s.cur g ((s.cur g).or _) f = _
  rw [Function.update_apply]
  simp only [leaving, setThis, Function.update_self]

theorem exists_switched (f : Id) :
    (s.switched t a b g m_state isOver).Exists f ↔ s.Exists f := by
  cases f with
  | made n => exact Iff.rfl
  | main t' =>
    show ((s.switched t a b g m_state isOver).thread t').t_threadFiber.isSome = true ↔ _
    rw [thread_switched]
    split_ifs with ht
    · rw [ht]
      exact Iff.rfl
    · exact Iff.rfl

/-- The fiber that leaves saves its place in its own context, and the code of `b` goes on. -/
theorem orderly_switched (h : Orderly s) (hb : s.Exists b)
    (hthread : (s.thread t).t_threadFiber = some (.main t))
    (hover : ∀ f, f ≠ (s.thread t).running → isOver f = s.isOver f) (hresume : isOver b = false)
    (hfree : ∀ t', (s.thread t').running = b → t' = t) :
    Orderly (s.switched t (s.thread t).running b b m_state isOver) where
  fault := h.fault
  names t' := by
    rw [thread_switched]
    split_ifs with ht
    · exact .inl ⟨rfl, ht ▸ hthread⟩
    · exact h.names t'
  own f hf hidle := by
    rw [exists_switched] at hf
    have hne : f ≠ b := by
      intro heq
      have hrun := hidle t
      rw [thread_switched, if_pos rfl] at hrun
      exact hrun heq.symm
    rw [m_ctx_switched, Function.update_apply]
    by_cases hr : f = (s.thread t).running
    · rw [if_pos hr, if_neg fun h => hne (hr.trans (Option.some.inj h)), ← hr]
    · -- it was idle before as well
      have hown : s.m_ctx f = some f := by
        refine h.own f hf fun t' => ?_
        rcases eq_or_ne t' t with rfl | ht
        · exact Ne.symm hr
        · have hrun := hidle t'
          rwa [thread_switched, if_neg ht] at hrun
      rw [if_neg hr, hown, if_neg fun h => hne (Option.some.inj h)]
  busy t' := by
    rw [thread_switched, m_ctx_switched, Function.update_apply]
    rcases eq_or_ne t' t with rfl | ht
    · rw [if_pos rfl]
      by_cases hr : b = (s.thread t').running
      · rw [if_pos hr, ← hr, if_pos rfl]
      · have hown : s.m_ctx b = some b := h.own b hb fun t₁ h₁ => hr (hfree t₁ h₁ ▸ h₁.symm)
        rw [if_neg hr, hown, if_pos rfl]
    · have hr : (s.thread t').running ≠ (s.thread t).running := fun heq => ht (h.apart t' t heq)
      rw [if_neg ht, if_neg hr, h.busy t']
      rfl
  apart t₁ t₂ heq := by
    rw [thread_switched, thread_switched] at heq
    split_ifs at heq with h₁ h₂ h₂
    · rw [h₁, h₂]
    · exact h₁.trans (hfree t₂ heq.symm).symm
    · exact (hfree t₁ heq).trans h₂.symm
    · exact h.apart t₁ t₂ heq
  alive t' := by
    show isOver _ = false
    rw [thread_switched]
    split_ifs with ht
    · exact hresume
    · rw [hover _ fun heq => ht (h.apart t' t heq)]
      exact h.alive t'
  born t' f hf := by
    rw [exists_switched]
    rw [thread_switched] at hf
    split_ifs at hf with ht
    · rcases hf with hf | hf
      · obtain rfl := Option.some.inj hf
        exact hb
      · exact h.born t f (.inr hf)
    · exact h.born t' f hf
  entered n := by
    rw [cur_switched]
    split_ifs with hn
    · rw [← hn]
      rcases h.entered n with hcur | hcur <;> rw [hcur] <;> exact .inr rfl
    · exact h.entered n
  begun t' n hrun := by
    rw [thread_switched] at hrun
    rw [cur_switched]
    split_ifs at hrun with ht
    · replace hrun : b = .made n := hrun
      rw [if_pos hrun.symm, hrun]
      rcases h.entered n with hcur | hcur <;> rw [hcur] <;> rfl
    · rw [if_neg fun heq => ht (hfree t' (hrun.trans heq)), h.begun t' n hrun]

theorem not_orderly_fail (e : Fault) : ¬ Orderly (s.fail e) := by
  intro h
  cases h.fault

/-- `t_fiber` is `b`, so it is the code of `b` that has to go on. -/
theorem eq_of_orderly_switched (h : Orderly (s.switched t a b g m_state isOver)) : b = g := by
  have hnames := h.names t
  rw [thread_switched, if_pos rfl] at hnames
  rcases hnames with ⟨hfiber, -⟩ | hfresh
  · exact Option.some.inj hfiber
  · cases congrArg Locals.t_fiber hfresh

/-- A place that is saved in the context of another fiber is missed there. -/
theorem not_orderly_switched (ha : s.Exists a) (hne : a ≠ (s.thread t).running)
    (hab : b ≠ a) (hidle : ∀ t', (s.thread t').running ≠ b) :
    ¬ Orderly (s.switched t a b b m_state isOver) := by
  intro h'
  have hctx : (s.switched t a b b m_state isOver).m_ctx a = some (s.thread t).running := by
    rw [m_ctx_switched, Function.update_self, if_neg fun h => hidle t (Option.some.inj h)]
  by_cases hrun : ∃ t', (s.thread t').running = a
  · obtain ⟨t', ht'⟩ := hrun
    have hbusy := h'.busy t'
    have htt : t' ≠ t := by
      rintro rfl
      exact hne ht'.symm
    rw [thread_switched, if_neg htt, ht', hctx] at hbusy
    cases hbusy
  · have hown := h'.own a (exists_switched a |>.mpr ha) fun t' heq => by
      rw [thread_switched] at heq
      split_ifs at heq
      · exact hab heq
      · exact hrun ⟨t', heq⟩
    rw [hctx] at hown
    exact hne (Option.some.inj hown).symm

theorem swapcontext_leaving :
    (s.leaving t b m_state isOver).swapcontext t a b =
      match Function.update s.m_ctx a (some (s.thread t).running) b with
      | none => { s.leaving t b m_state isOver with
          m_ctx := Function.update s.m_ctx a (some (s.thread t).running) }.fail .staleContext
      | some g =>
        if isOver g then { s.leaving t b m_state isOver with
          m_ctx := Function.update s.m_ctx a (some (s.thread t).running) }.fail .assertion
        else s.switched t a b g m_state isOver := by
  have hrunning : ((s.leaving t b m_state isOver).thread t).running = (s.thread t).running := by
    simp only [leaving, setThis, Function.update_self]
  unfold swapcontext switched
  rw [hrunning]
  rfl

/-- Order is kept by the one that leaves in its own context for a fiber that can go on. -/
theorem orderly_swapcontext_iff (h : Orderly s) (ha : s.Exists a) (hb : s.Exists b)
    (hthread : (s.thread t).t_threadFiber = some (.main t))
    (hover : ∀ f, f ≠ (s.thread t).running → isOver f = s.isOver f) :
    Orderly ((s.leaving t b m_state isOver).swapcontext t a b) ↔
      a = (s.thread t).running ∧ isOver b = false ∧ ∀ t', (s.thread t').running = b → t' = t := by
  rw [swapcontext_leaving]
  rcases eq_or_ne b a with rfl | hab
  · -- the code that leaves goes on at once
    rw [Function.update_self]
    simp only
    by_cases hr : b = (s.thread t).running
    · subst hr
      by_cases ho : isOver (s.thread t).running = true
      · rw [if_pos ho]
        exact iff_of_false (not_orderly_fail _) fun h => by simp [ho] at h
      · rw [if_neg ho]
        replace ho : isOver (s.thread t).running = false := Bool.eq_false_iff.mpr ho
        have hfree : ∀ t', (s.thread t').running = (s.thread t).running → t' = t :=
          fun t' => h.apart t' t
        exact iff_of_true (orderly_switched h hb hthread hover ho hfree) ⟨rfl, ho, hfree⟩
    · refine iff_of_false (fun h' => ?_) fun h' => hr h'.1
      split_ifs at h'
      · exact not_orderly_fail _ h'
      · exact hr (eq_of_orderly_switched h')
  · rw [Function.update_of_ne hab]
    by_cases hrun : ∃ t', (s.thread t').running = b
    · obtain ⟨t', ht'⟩ := hrun
      rw [← ht', h.busy t']
      refine iff_of_false (not_orderly_fail _) fun h' => hab ?_
      rw [h'.1, ← h'.2.2 t' rfl, ht']
    · have hidle : ∀ t', (s.thread t').running ≠ b := not_exists.mp hrun
      rw [h.own b hb hidle]
      simp only
      by_cases ho : isOver b = true
      · rw [if_pos ho]
        exact iff_of_false (not_orderly_fail _) fun h => by simp [ho] at h
      · rw [if_neg ho]
        replace ho : isOver b = false := Bool.eq_false_iff.mpr ho
        have hfree : ∀ t', (s.thread t').running = b → t' = t := fun t' h => absurd h (hidle t')
        by_cases hr : a = (s.thread t).running
        · subst hr
          exact iff_of_true (orderly_switched h hb hthread hover ho hfree) ⟨rfl, ho, hfree⟩
        · exact iff_of_false (not_orderly_switched ha hr hab hidle) fun h => hr h.1

end Switch

/-! ### The calls -/

section Calls

variable {f : Id}

theorem orderly_setState (h : Orderly s) (f : Id) (v : FiberState) : Orderly (s.setState f v) :=
  ⟨h.fault, h.names, h.own, h.busy, h.apart, h.alive, h.born, h.entered, h.begun⟩

theorem thread_makeMain (t' : ℕ) :
    (s.makeMain t).thread t' =
      if t' = t then
        { s.thread t with t_fiber := some (.main t), t_threadFiber := some (.main t) }
      else s.thread t' :=
  Function.update_apply ..

theorem exists_makeMain : (s.makeMain t).Exists f ↔ f = .main t ∨ s.Exists f := by
  cases f with
  | made n => simp [Exists, makeMain, setState]
  | main t' =>
    simp only [Exists, thread_makeMain, Id.main.injEq]
    split_ifs with ht <;> simp [ht]

theorem orderly_makeMain (h : Orderly s) (hfresh : s.thread t = new.thread t) :
    Orderly (s.makeMain t) := by
  have hrunning (t' : ℕ) : ((s.makeMain t).thread t').running = (s.thread t').running := by
    rw [thread_makeMain]
    split_ifs with ht
    · rw [ht]
    · rfl
  refine ⟨h.fault, fun t' => ?_, fun f hf hidle => ?_, fun t' => ?_, fun t₁ t₂ heq => ?_,
    fun t' => ?_, fun t' f hf => ?_, h.entered, fun t' n hrun => ?_⟩
  · rw [thread_makeMain]
    split_ifs with ht
    · refine .inl ⟨?_, ?_⟩ <;> simp only [hfresh, new, ht]
    · exact h.names t'
  · simp only [hrunning] at hidle
    rcases exists_makeMain.mp hf with rfl | hf
    · exact absurd (by rw [hfresh]; rfl) (hidle t)
    · exact h.own f hf hidle
  · rw [hrunning]
    exact h.busy t'
  · rw [hrunning, hrunning] at heq
    exact h.apart t₁ t₂ heq
  · rw [hrunning]
    exact h.alive t'
  · rw [exists_makeMain]
    rw [thread_makeMain] at hf
    split_ifs at hf with ht
    · simp only [hfresh, new, Option.some.injEq, reduceCtorEq, or_false] at hf
      exact .inl hf.symm
    · exact .inr (h.born t' f hf)
  · rw [hrunning] at hrun
    exact h.begun t' n hrun

/-- `GetThis` finds the fiber that runs, or makes the main fiber of its thread. -/
theorem getThis_cases (h : Orderly s) (t : ℕ) :
    (s.getThis t = ((s.thread t).running, s) ∧ (s.thread t).t_threadFiber = some (.main t) ∧
        (s.thread t).t_fiber = some (s.thread t).running) ∨
      s.getThis t = (.main t, s.makeMain t) ∧ s.thread t = new.thread t := by
  rcases h.names t with ⟨hfiber, hthread⟩ | hfresh
  · refine .inl ⟨?_, hthread, hfiber⟩
    rw [getThis, hfiber, Option.elim_some]
  · refine .inr ⟨?_, hfresh⟩
    rw [getThis, hfresh]
    rfl

theorem orderly_getThis (h : Orderly s) (t : ℕ) : Orderly (s.getThis t).2 := by
  rcases getThis_cases h t with ⟨hget, -⟩ | ⟨hget, hfresh⟩ <;> rw [hget]
  · exact h
  · exact orderly_makeMain h hfresh

/-- What runs has been made, unless its thread has no fiber yet. -/
theorem running_ne_made (h : Orderly s) (t : ℕ) : (s.thread t).running ≠ .made s.made := by
  intro heq
  rcases h.names t with ⟨hfiber, -⟩ | hfresh
  · have hlt : s.made < s.made := h.born t (.made s.made) (.inl (heq ▸ hfiber))
    exact Nat.lt_irrefl _ hlt
  · rw [hfresh] at heq
    cases heq

theorem exists_make (use_caller : Bool) :
    (s.make use_caller).Exists f ↔ f = .made s.made ∨ s.Exists f := by
  cases f with
  | main t' => simp [Exists, make]
  | made n =>
    simp only [Exists, make, Id.made.injEq]
    omega

theorem orderly_make (h : Orderly s) (use_caller : Bool) : Orderly (s.make use_caller) := by
  have hne := running_ne_made h
  refine ⟨h.fault, h.names, fun f hf hidle => ?_, fun t' => ?_, h.apart, fun t' => ?_,
    fun t' f hf => (exists_make use_caller).mpr (.inr (h.born t' f hf)), fun n => ?_,
    fun t' n hrun => ?_⟩
  · show Function.update s.m_ctx (.made s.made) _ f = some f
    rcases eq_or_ne f (.made s.made) with rfl | hf'
    · rw [Function.update_self]
    · rw [Function.update_of_ne hf']
      exact h.own f (((exists_make use_caller).mp hf).resolve_left hf') hidle
  · show Function.update s.m_ctx (.made s.made) _ (s.thread t').running = none
    rw [Function.update_of_ne (hne t')]
    exact h.busy t'
  · show Function.update s.isOver (.made s.made) false (s.thread t').running = false
    rw [Function.update_of_ne (hne t')]
    exact h.alive t'
  · show Function.update s.cur (.made s.made) none (.made n) = none ∨
      Function.update s.cur (.made s.made) none (.made n) = _
    rw [Function.update_apply]
    split_ifs
    · exact .inl rfl
    · exact h.entered n
  · show Function.update s.cur (.made s.made) none (.made n) = _
    rw [Function.update_of_ne (hrun ▸ hne t')]
    exact h.begun t' n hrun

theorem orderly_reset_iff (h : Orderly s) :
    Orderly (s.reset f) ↔
      (s.m_state f = .INIT ∨ s.m_state f = .TERM ∨ s.m_state f = .EXCEPT) ∧
        ∀ t, (s.thread t).running ≠ f := by
  unfold reset
  split_ifs with hstate
  · rw [and_iff_right hstate]
    constructor
    · intro h' t heq
      have hbusy : (if (s.thread t).running = f then some f else _) = none := h'.busy t
      rw [if_pos heq] at hbusy
      cases hbusy
    · intro hidle
      refine ⟨h.fault, h.names, fun g hg hrun => ?_, fun t => ?_, h.apart, fun t => ?_, h.born,
        fun n => ?_, fun t n hrun => ?_⟩
      · show (if g = f then some f else if s.m_ctx g = some f then none else s.m_ctx g) = some g
        split_ifs with hgf hctx
        · rw [hgf]
        · rw [h.own g hg hrun] at hctx
          exact absurd (Option.some.inj hctx) hgf
        · exact h.own g hg hrun
      · show (if _ = f then some f else if s.m_ctx _ = some f then none else s.m_ctx _) = none
        rw [if_neg (hidle t), h.busy t]
        rfl
      · show Function.update s.isOver f false _ = false
        rw [Function.update_of_ne (hidle t)]
        exact h.alive t
      · show Function.update s.cur f none (.made n) = none ∨
          Function.update s.cur f none (.made n) = _
        rw [Function.update_apply]
        split_ifs
        · exact .inl rfl
        · exact h.entered n
      · show Function.update s.cur f none (.made n) = _
        rw [Function.update_of_ne (hrun ▸ hidle t)]
        exact h.begun t n hrun
  · exact iff_of_false (not_orderly_fail _) fun h => hstate h.1

theorem orderly_settle (h : Orderly s) (f : Id) : Orderly (s.settle f) := by
  unfold settle
  split_ifs
  · exact h
  · exact orderly_setState h f .HOLD

theorem thread_setThis_self (g : Option Id) :
    (s.setThis t g).thread t = { s.thread t with t_fiber := g } :=
  Function.update_self ..

theorem mainFiber_setThis (g : Option Id) :
    ((s.setThis t g).thread t).mainFiber = (s.thread t).mainFiber := by
  rw [thread_setThis_self]

theorem t_threadFiber_setThis (g : Option Id) :
    ((s.setThis t g).thread t).t_threadFiber = (s.thread t).t_threadFiber := by
  rw [thread_setThis_self]

/-- A thread with a scheduler has a fiber. -/
theorem t_threadFiber_of_mainFiber (h : Orderly s) {m : Id} (hm : (s.thread t).mainFiber = some m) :
    (s.thread t).t_threadFiber = some (.main t) := by
  rcases h.names t with ⟨-, hthread⟩ | hfresh
  · exact hthread
  · rw [hfresh] at hm
    cases hm

theorem swapIn_eq {m : Id} (hstate : s.m_state f ≠ .EXEC) (hm : (s.thread t).mainFiber = some m) :
    s.swapIn t f =
      (s.leaving t f (Function.update s.m_state f .EXEC) s.isOver).swapcontext t m f := by
  unfold swapIn
  simp only
  rw [if_neg (show ¬(s.setThis t (some f)).m_state f = .EXEC from hstate)]
  show ((s.setThis t (some f)).thread t).mainFiber.elim _ _ = _
  rw [mainFiber_setThis, hm]
  rfl

theorem call_eq {m : Id} (hm : (s.thread t).t_threadFiber = some m) :
    s.call t f =
      (s.leaving t f (Function.update s.m_state f .EXEC) s.isOver).swapcontext t m f := by
  unfold call
  simp only
  show ((s.setThis t (some f)).thread t).t_threadFiber.elim _ _ = _
  rw [t_threadFiber_setThis, hm]
  rfl

theorem swapOut_eq {m : Id} (m_state : Id → FiberState) (isOver : Id → Bool)
    (hm : (s.thread t).mainFiber = some m) :
    ({ s with m_state, isOver } : Fibers).swapOut t f =
      (s.leaving t m m_state isOver).swapcontext t f m := by
  unfold swapOut
  simp only [mainFiber_setThis, hm]
  rfl

theorem back_eq {m : Id} (m_state : Id → FiberState) (isOver : Id → Bool)
    (hm : (s.thread t).t_threadFiber = some m) :
    ({ s with m_state, isOver } : Fibers).back t f =
      (s.leaving t m m_state isOver).swapcontext t f m := by
  unfold back
  simp only [t_threadFiber_setThis, hm]
  rfl

theorem orderly_swapIn_iff (h : Orderly s) (hf : s.Exists f) :
    Orderly (s.swapIn t f) ↔
      s.m_state f ≠ .EXEC ∧ (s.thread t).mainFiber = some (s.thread t).running ∧
        s.CanResume t f := by
  by_cases hstate : s.m_state f = .EXEC
  · rw [swapIn]
    simp only
    rw [if_pos (show (s.setThis t (some f)).m_state f = .EXEC from hstate)]
    exact iff_of_false (not_orderly_fail _) fun h => h.1 hstate
  · rw [and_iff_right hstate]
    cases hm : (s.thread t).mainFiber with
    | none =>
      unfold swapIn
      simp only
      rw [if_neg (show ¬(s.setThis t (some f)).m_state f = .EXEC from hstate)]
      show Orderly (((s.setThis t (some f)).thread t).mainFiber.elim _ _) ↔ _
      rw [mainFiber_setThis, hm]
      exact iff_of_false (not_orderly_fail _) fun h => by cases h.1
    | some m =>
      rw [swapIn_eq hstate hm, Option.some_inj]
      exact orderly_swapcontext_iff h (h.born t m (.inr hm)) hf (t_threadFiber_of_mainFiber h hm)
        fun _ _ => rfl

theorem exists_main (h : (s.thread t).t_threadFiber = some (.main t)) : s.Exists (.main t) := by
  show (s.thread t).t_threadFiber.isSome = true
  rw [h]
  rfl

theorem orderly_call_iff (h : Orderly s) (hf : s.Exists f) :
    Orderly (s.call t f) ↔
      (s.thread t).t_threadFiber = some (s.thread t).running ∧ s.CanResume t f := by
  rcases h.names t with ⟨-, hthread⟩ | hfresh
  · rw [call_eq hthread, hthread, Option.some_inj]
    exact orderly_swapcontext_iff h (exists_main hthread) hf hthread fun _ _ => rfl
  · unfold call
    simp only
    show Orderly (((s.setThis t (some f)).thread t).t_threadFiber.elim _ _) ↔ _
    rw [t_threadFiber_setThis, hfresh]
    exact iff_of_false (not_orderly_fail _) fun h => by cases h.1

/-- What runs, in a thread that has a fiber, has been made. -/
theorem exists_running (h : Orderly s) (hfiber : (s.thread t).t_fiber = some (s.thread t).running) :
    s.Exists (s.thread t).running :=
  h.born t _ (.inl hfiber)

/-- The fiber that runs goes back to the scheduler. -/
theorem orderly_swapOut_iff (h : Orderly s)
    (hfiber : (s.thread t).t_fiber = some (s.thread t).running) (m_state : Id → FiberState)
    {isOver : Id → Bool} (hover : ∀ f, f ≠ (s.thread t).running → isOver f = s.isOver f) :
    Orderly (({ s with m_state, isOver } : Fibers).swapOut t (s.thread t).running) ↔
      ∃ m, (s.thread t).mainFiber = some m ∧ isOver m = false ∧
        ∀ t', (s.thread t').running = m → t' = t := by
  cases hm : (s.thread t).mainFiber with
  | none =>
    unfold swapOut
    simp only [mainFiber_setThis, hm]
    exact iff_of_false (not_orderly_fail _) fun ⟨m, h, _⟩ => by cases h
  | some m =>
    rw [swapOut_eq m_state isOver hm, orderly_swapcontext_iff h (exists_running h hfiber)
      (h.born t m (.inr hm)) (t_threadFiber_of_mainFiber h hm) hover, and_iff_right rfl]
    simp only [Option.some_inj, exists_eq_left']

/-- The fiber that runs goes back to the main fiber of its thread. -/
theorem orderly_back_iff (h : Orderly s)
    (hfiber : (s.thread t).t_fiber = some (s.thread t).running) (m_state : Id → FiberState)
    {isOver : Id → Bool} (hover : ∀ f, f ≠ (s.thread t).running → isOver f = s.isOver f) :
    Orderly (({ s with m_state, isOver } : Fibers).back t (s.thread t).running) ↔
      ∃ m, (s.thread t).t_threadFiber = some m ∧ isOver m = false ∧
        ∀ t', (s.thread t').running = m → t' = t := by
  rcases h.names t with ⟨-, hthread⟩ | hfresh
  · rw [back_eq m_state isOver hthread, orderly_swapcontext_iff h (exists_running h hfiber)
      (exists_main hthread) hthread hover, and_iff_right rfl]
    simp only [hthread, Option.some_inj, exists_eq_left']
  · rw [hfresh] at hfiber
    cases hfiber

theorem orderly_yieldTo_iff (h : Orderly s) (v : FiberState) :
    Orderly (s.yieldTo t v) ↔
      s.m_state (s.thread t).running = .EXEC ∧
        ∃ m, (s.thread t).mainFiber = some m ∧ s.CanResume t m := by
  unfold yieldTo
  rcases getThis_cases h t with ⟨hget, -, hfiber⟩ | ⟨hget, hfresh⟩
  · rw [hget]
    simp only
    by_cases hstate : s.m_state (s.thread t).running = .EXEC
    · rw [if_pos hstate, and_iff_right hstate]
      exact orderly_swapOut_iff h hfiber _ fun _ _ => rfl
    · rw [if_neg hstate]
      exact iff_of_false (not_orderly_fail _) fun h => hstate h.1
  · -- the thread has no scheduler
    have hmain : ((s.makeMain t).thread t).mainFiber = none := by
      rw [thread_makeMain, if_pos rfl, hfresh]
      rfl
    have hstate : (s.makeMain t).m_state (.main t) = .EXEC := Function.update_self ..
    rw [hget]
    simp only
    rw [if_pos hstate, swapOut]
    show Orderly ((((s.makeMain t).setThis t _).thread t).mainFiber.elim _ _) ↔ _
    rw [mainFiber_setThis, hmain, Option.elim_none]
    refine iff_of_false (not_orderly_fail _) fun ⟨_, m, h, _⟩ => ?_
    rw [hfresh] at h
    cases h

theorem orderly_finish_iff (h : Orderly s) (throws : Bool) :
    Orderly (s.finish t throws) ↔
      ∀ n, (s.thread t).running = .made n →
        ∃ m, (if s.useCaller (.made n) then (s.thread t).t_threadFiber
            else (s.thread t).mainFiber) = some m ∧
          m ≠ .made n ∧ s.CanResume t m := by
  unfold finish
  cases hrun : (s.thread t).running with
  | main t' => exact iff_of_true h fun n heq => by cases heq
  | made n =>
    have hfiber : (s.thread t).t_fiber = some (s.thread t).running := by
      rcases h.names t with ⟨hfiber, -⟩ | hfresh
      · exact hfiber
      · rw [hfresh] at hrun
        cases hrun
    have hover : ∀ f, f ≠ (s.thread t).running →
        Function.update s.isOver (.made n) true f = s.isOver f :=
      fun f hf => Function.update_of_ne (hrun ▸ hf) ..
    -- what is over is over, and another fiber is as it was
    have hother (m : Id) : Function.update s.isOver (.made n) true m = false ↔
        m ≠ .made n ∧ s.isOver m = false := by
      rcases eq_or_ne m (.made n) with rfl | hm
      · simp
      · rw [Function.update_of_ne hm, and_iff_right hm]
    simp only [h.begun t n hrun, Option.elim_some, Id.made.injEq, forall_eq']
    generalize (if throws then FiberState.EXCEPT else FiberState.TERM) = v
    change Orderly (if s.useCaller (.made n) = true then _ else _) ↔ _
    by_cases hcaller : s.useCaller (.made n) = true
    · simp only [hcaller, ↓reduceIte]
      have hback := orderly_back_iff h hfiber (Function.update s.m_state (.made n) v) hover
      rw [hrun] at hback
      refine hback.trans (exists_congr fun m => and_congr_right fun _ => ?_)
      rw [hother, and_assoc]
      exact Iff.rfl
    · simp only [hcaller]
      have hout := orderly_swapOut_iff h hfiber (Function.update s.m_state (.made n) v) hover
      rw [hrun] at hout
      refine hout.trans (exists_congr fun m => and_congr_right fun _ => ?_)
      rw [hother, and_assoc]
      exact Iff.rfl

theorem thread_setMain (m : Id) (t' : ℕ) :
    (s.setMain t m).thread t' =
      if t' = t then { s.thread t with mainFiber := some m } else s.thread t' :=
  Function.update_apply ..

theorem orderly_setMain (h : Orderly s) {m : Id} (hm : s.Exists m)
    (hthread : (s.thread t).t_fiber = some (s.thread t).running) : Orderly (s.setMain t m) := by
  have hrunning (t' : ℕ) : ((s.setMain t m).thread t').running = (s.thread t').running := by
    rw [thread_setMain]
    split_ifs with ht
    · rw [ht]
    · rfl
  have hexists (f : Id) : (s.setMain t m).Exists f ↔ s.Exists f := by
    cases f with
    | made n => exact Iff.rfl
    | main t' =>
      show ((s.setMain t m).thread t').t_threadFiber.isSome = true ↔ _
      rw [thread_setMain]
      split_ifs with ht
      · rw [ht]
        exact Iff.rfl
      · exact Iff.rfl
  refine ⟨h.fault, fun t' => ?_, fun f hf hidle => ?_, fun t' => ?_, fun t₁ t₂ heq => ?_,
    fun t' => ?_, fun t' f hf => ?_, h.entered, fun t' n hrun => ?_⟩
  · rw [thread_setMain]
    split_ifs with ht
    · rcases h.names t with hnames | hfresh
      · exact .inl (ht ▸ hnames)
      · rw [hfresh] at hthread
        cases hthread
    · exact h.names t'
  · simp only [hrunning] at hidle
    exact h.own f ((hexists f).mp hf) hidle
  · rw [hrunning]
    exact h.busy t'
  · rw [hrunning, hrunning] at heq
    exact h.apart t₁ t₂ heq
  · rw [hrunning]
    exact h.alive t'
  · rw [hexists]
    rw [thread_setMain] at hf
    split_ifs at hf with ht
    · rcases hf with hf | hf
      · exact h.born t f (.inl hf)
      · exact Option.some.inj hf ▸ hm
    · exact h.born t' f hf
  · rw [hrunning] at hrun
    exact h.begun t' n hrun

/-- `GetThis` is right, and behind it the thread has a fiber. -/
theorem getThis_spec (h : Orderly s) (t : ℕ) :
    (s.getThis t).1 = (s.thread t).running ∧
      ((s.getThis t).2.thread t).running = (s.thread t).running ∧
      ((s.getThis t).2.thread t).t_fiber = some (s.thread t).running := by
  rcases getThis_cases h t with ⟨hget, -, hfiber⟩ | ⟨hget, hfresh⟩ <;> rw [hget]
  · exact ⟨rfl, rfl, hfiber⟩
  · simp only
    rw [thread_makeMain, if_pos rfl, hfresh]
    exact ⟨rfl, rfl, rfl⟩

theorem orderly_beginRun (h : Orderly s) (t : ℕ) : Orderly (s.beginRun t) := by
  obtain ⟨hthis, hrun, hfiber⟩ := getThis_spec h t
  have hget := orderly_getThis h t
  have hfiber' := hfiber.trans (congrArg some hrun.symm)
  have hborn := hget.born t _ (.inl (hfiber.trans (congrArg some hthis.symm)))
  exact orderly_setMain hget hborn hfiber'

theorem orderly_makeRoot (h : Orderly s) (t : ℕ) : Orderly (s.makeRoot t) := by
  obtain ⟨-, hrun, hfiber⟩ := getThis_spec h t
  have hmake := orderly_make (orderly_getThis h t) true
  exact orderly_setMain hmake ((exists_make true).mpr (.inl rfl))
    (hfiber.trans (congrArg some hrun.symm))

end Calls

/-! ### Runs -/

/-- **One call.** From an orderly state exactly the calls that meet the condition keep order. -/
theorem orderly_step_iff (h : Orderly s) (a : ℕ × Call) : Orderly (s.step a) ↔ s.Meets a := by
  obtain ⟨t, c⟩ := a
  unfold step Meets
  rw [h.fault]
  simp only [Option.isSome_none, Bool.false_eq_true, if_false]
  have hguard {f : Id} {s' : Fibers} {P : Prop} (h' : s.Exists f → (Orderly s' ↔ P)) :
      Orderly (if s.Exists f then s' else s) ↔ (s.Exists f → P) := by
    split_ifs with hf
    · exact (h' hf).trans ⟨fun hP _ => hP, fun hP => hP hf⟩
    · exact iff_of_true h fun hf' => absurd hf' hf
  cases c with
  | getThis => exact iff_of_true (orderly_getThis h t) trivial
  | new => exact iff_of_true (orderly_make h false) trivial
  | reset f => exact hguard fun _ => orderly_reset_iff h
  | swapIn f => exact hguard fun hf => orderly_swapIn_iff h hf
  | call f => exact hguard fun hf => orderly_call_iff h hf
  | yieldToHold => exact orderly_yieldTo_iff h .HOLD
  | yieldToReady => exact orderly_yieldTo_iff h .READY
  | finish throws => exact orderly_finish_iff h throws
  | scheduler => exact iff_of_true (orderly_makeRoot h t) trivial
  | run => exact iff_of_true (orderly_beginRun h t) trivial
  | settle f =>
    have hsettle : Orderly (if s.Exists f then s.settle f else s) := by
      split_ifs
      · exact orderly_settle h f
      · exact h
    exact iff_of_true hsettle trivial

theorem orderly_new : Orderly new where
  fault := rfl
  names t := .inr rfl
  own f hf := by
    cases f with
    | main t => cases hf
    | made n => exact absurd hf (Nat.not_lt_zero n)
  busy t := rfl
  apart t t' heq := Id.main.inj heq
  alive t := rfl
  born t f hf := by rcases hf with hf | hf <;> cases hf
  entered n := .inl rfl
  begun t n hrun := by cases hrun

end Fibers

end Muhui
