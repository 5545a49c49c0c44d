/-
  The fibers of schedulers: whole runs of `Scheduler::run`, of the callbacks and of `stop`.

  The main fiber of a scheduler is the one in which `run` is executed: that of the thread, or the
  root fiber of a caller's thread, which `stop` calls.  `run` switches to tasks alone and looks at
  their state before.  That is enough for order (`orderly_of_follows`), as long as no other thread
  resumes a task between its switch back and the moment in which `run` settles its state.
-/
import Muhui.Fiber.Contexts

namespace Muhui

open Muhui.Fiber

namespace Fibers

variable {s : Fibers} {t : ℕ} {f b : Id}

/-- A fiber that `Scheduler::run` may switch to: one that goes back to it. -/
def isTask (s : Fibers) : Id → Bool
  | .main _ => false
  | .made n => !s.useCaller (.made n)

/-- What the code of `Scheduler`, and the callbacks that it runs, call.  Callbacks construct fibers,
yield and end; a root fiber is called once. -/
def Follows (s : Fibers) (a : ℕ × Call) : Prop :=
  match a.2 with
  | .getThis | .new | .finish _ => True
  | .reset f =>
    (s.thread a.1).mainFiber = some (s.thread a.1).running ∧ s.isTask f = true ∧
      (s.m_state f = .INIT ∨ s.m_state f = .TERM ∨ s.m_state f = .EXCEPT)
  | .swapIn f =>
    (s.thread a.1).mainFiber = some (s.thread a.1).running ∧ s.isTask f = true ∧
      s.m_state f ≠ .EXEC ∧ s.m_state f ≠ .TERM ∧ s.m_state f ≠ .EXCEPT
  | .settle f =>
    (s.thread a.1).mainFiber = some (s.thread a.1).running ∧ s.isTask f = true ∧
      s.m_state f ≠ .EXEC
  | .call f =>
    (s.thread a.1).running = .main a.1 ∧ (s.thread a.1).mainFiber = some f ∧ f ≠ .main a.1 ∧
      s.m_state f = .INIT
  | .yieldToHold | .yieldToReady =>
    (s.thread a.1).running ≠ .main a.1 ∧
      (s.thread a.1).mainFiber ≠ some (s.thread a.1).running
  | .scheduler | .run => (s.thread a.1).running = .main a.1

instance (a : ℕ × Call) : Decidable (s.Follows a) := by
  obtain ⟨t, c⟩ := a
  cases c <;> unfold Follows <;> infer_instance

/-- Who runs what, and what the states of the fibers say of it. -/
structure Pool (s : Fibers) : Prop where
  lane : ∀ t, (s.thread t).running = .main t ∨ ∃ m, (s.thread t).mainFiber = some m ∧
    ((s.thread t).running = m ∨ s.isTask (s.thread t).running = true)
  mains : ∀ t m, (s.thread t).mainFiber = some m →
    m = .main t ∨ ∃ n, m = .made n ∧ s.useCaller m = true
  owned : ∀ t t' m, (s.thread t).mainFiber = some m → (s.thread t').mainFiber = some m → t = t'
  home : ∀ t t', (s.thread t').running = .main t → t' = t
  kept : ∀ t t' m, (s.thread t).mainFiber = some m → (s.thread t').running = m → t' = t
  working : ∀ f, s.isTask f = true → s.Exists f →
    (s.m_state f = .EXEC ↔ ∃ t, (s.thread t).running = f)
  ended : ∀ n, s.isOver (.made n) = true →
    s.m_state (.made n) = .TERM ∨ s.m_state (.made n) = .EXCEPT
  lasting : ∀ t, s.isOver (.main t) = false
  staffed : ∀ t m, (s.thread t).mainFiber = some m → (s.thread t).running ≠ .main t →
    s.isOver m = false

theorem made_ne_main (n t : ℕ) : Id.made n ≠ .main t := by
  intro h
  cases h

theorem isTask_of_mains (h : Pool s) {m : Id} (hm : (s.thread t).mainFiber = some m) :
    s.isTask m = false := by
  rcases h.mains t m hm with rfl | ⟨n, rfl, hcaller⟩
  · rfl
  · simp [isTask, hcaller]

/-! ### What the calls of `Follows` meet -/

/-- What has not ended by its state has not ended. -/
theorem over_of_state (h : Pool s) (hterm : s.m_state f ≠ .TERM) (hexcept : s.m_state f ≠ .EXCEPT) :
    s.isOver f = false := by
  cases f with
  | main t => exact h.lasting t
  | made n =>
    rw [Bool.eq_false_iff]
    intro hover
    rcases h.ended n hover with hstate | hstate
    · exact hterm hstate
    · exact hexcept hstate

/-- A thread that is not in its own code runs a task or the main fiber of its scheduler. -/
theorem main_of_running (h : Pool s) (hrun : (s.thread t).running ≠ .main t) :
    ∃ m, (s.thread t).mainFiber = some m ∧ s.CanResume t m ∧
      ((s.thread t).running = m ∨ s.isTask (s.thread t).running = true) := by
  obtain ⟨m, hm, hrole⟩ := (h.lane t).resolve_left hrun
  exact ⟨m, hm, ⟨h.staffed t m hm hrun, fun t' => h.kept t t' m hm⟩, hrole⟩

theorem meets_of_follows (ho : Orderly s) (h : Pool s) {a : ℕ × Call} (ha : s.Follows a) :
    s.Meets a := by
  obtain ⟨t, c⟩ := a
  cases c with
  | getThis | new | scheduler | run | settle f => trivial
  | reset f =>
    obtain ⟨-, htask, hstate⟩ := ha
    refine fun hf => ⟨hstate, fun t' hrun => ?_⟩
    have hexec := (h.working f htask hf).mpr ⟨t', hrun⟩
    rw [hexec] at hstate
    simp at hstate
  | swapIn f =>
    obtain ⟨hmain, htask, hexec, hterm, hexcept⟩ := ha
    refine fun hf => ⟨hexec, hmain, over_of_state h hterm hexcept, fun t' hrun => ?_⟩
    exact absurd ((h.working f htask hf).mpr ⟨t', hrun⟩) hexec
  | call f =>
    obtain ⟨hrun, hmain, -, hstate⟩ := ha
    refine fun hf => ⟨?_, over_of_state h ?_ ?_, fun t' => h.kept t t' f hmain⟩
    · exact (t_threadFiber_of_mainFiber ho hmain).trans (congrArg some hrun.symm)
    · rw [hstate]
      decide
    · rw [hstate]
      decide
  | yieldToHold | yieldToReady =>
    obtain ⟨hrun, hmain⟩ := ha
    obtain ⟨m, hm, hresume, hrole⟩ := main_of_running h hrun
    have htask : s.isTask (s.thread t).running = true := by
      refine hrole.resolve_left fun heq => hmain ?_
      rw [heq]
      exact hm
    have hfiber : (s.thread t).t_fiber = some (s.thread t).running := by
      rcases ho.names t with ⟨hfiber, -⟩ | hfresh
      · exact hfiber
      · rw [hfresh] at hm
        cases hm
    exact ⟨(h.working _ htask (exists_running ho hfiber)).mpr ⟨t, rfl⟩, m, hm, hresume⟩
  | finish throws =>
    intro n hrun
    have hrun' : (s.thread t).running ≠ .main t := by
      rw [hrun]
      exact made_ne_main n t
    obtain ⟨m, hm, hresume, hrole⟩ := main_of_running h hrun'
    by_cases hcaller : s.useCaller (.made n) = true
    · -- a root fiber goes back to the code of its thread
      rw [if_pos hcaller]
      exact ⟨.main t, t_threadFiber_of_mainFiber ho hm, (made_ne_main n t).symm, h.lasting t,
        fun t' => h.home t t'⟩
    · rw [if_neg hcaller]
      refine ⟨m, hm, ?_, hresume⟩
      rintro rfl
      have htask := isTask_of_mains h hm
      simp [isTask, hcaller] at htask

/-! ### What a switch keeps -/

section Switch

variable {m_state : Id → FiberState} {isOver : Id → Bool}

theorem isTask_switched (a g : Id) : (s.switched t a b g m_state isOver).isTask f = s.isTask f := by
  cases f <;> rfl

/-- A thread goes on in a fiber that is its own or a task, and the states say so. -/
theorem pool_switched (h : Pool s) (a : Id)
    (hlane : b = .main t ∨ ∃ m, (s.thread t).mainFiber = some m ∧ (b = m ∨ s.isTask b = true))
    (hhome : ∀ t', b = .main t' → t = t')
    (hkept : ∀ t' m, (s.thread t').mainFiber = some m → b = m → t = t')
    (hworking : ∀ f, s.isTask f = true → s.Exists f →
      (m_state f = .EXEC ↔ f = b ∨ ∃ t', t' ≠ t ∧ (s.thread t').running = f))
    (hended : ∀ n, isOver (.made n) = true →
      m_state (.made n) = .TERM ∨ m_state (.made n) = .EXCEPT)
    (hlasting : ∀ t, isOver (.main t) = false)
    (hstaffed : ∀ m, (s.thread t).mainFiber = some m → b ≠ .main t → isOver m = false)
    (hothers : ∀ t' m, t' ≠ t → (s.thread t').mainFiber = some m →
      (s.thread t').running ≠ .main t' → isOver m = false) :
    Pool (s.switched t a b b m_state isOver) := by
  have hmain (t' : ℕ) :
      ((s.switched t a b b m_state isOver).thread t').mainFiber = (s.thread t').mainFiber := by
    rw [thread_switched]
    split_ifs with ht
    · rw [ht]
    · rfl
  have hrunning (t' : ℕ) : ((s.switched t a b b m_state isOver).thread t').running =
      if t' = t then b else (s.thread t').running := by
    rw [thread_switched]
    split_ifs <;> rfl
  constructor
  · intro t'
    simp only [hmain, hrunning, isTask_switched]
    split_ifs with ht
    · rw [ht]
      exact hlane
    · exact h.lane t'
  · intro t' m hm
    exact h.mains t' m ((hmain t').symm.trans hm)
  · intro t₁ t₂ m h₁ h₂
    exact h.owned t₁ t₂ m ((hmain t₁).symm.trans h₁) ((hmain t₂).symm.trans h₂)
  · intro t₁ t₂ hrun
    rw [hrunning] at hrun
    split_ifs at hrun with ht
    · exact ht.trans (hhome t₁ hrun)
    · exact h.home t₁ t₂ hrun
  · intro t₁ t₂ m hm hrun
    rw [hmain] at hm
    rw [hrunning] at hrun
    split_ifs at hrun with ht
    · exact ht.trans (hkept t₁ m hm hrun)
    · exact h.kept t₁ t₂ m hm hrun
  · intro f htask hf
    rw [isTask_switched] at htask
    rw [exists_switched] at hf
    refine (hworking f htask hf).trans ?_
    simp only [hrunning]
    constructor
    · rintro (rfl | ⟨t', ht', hrun⟩)
      · exact ⟨t, if_pos rfl⟩
      · exact ⟨t', (if_neg ht').trans hrun⟩
    · rintro ⟨t', hrun⟩
      split_ifs at hrun with ht
      · exact .inl hrun.symm
      · exact .inr ⟨t', ht, hrun⟩
  · exact hended
  · exact hlasting
  · intro t' m hm hrun
    rw [hmain] at hm
    rw [hrunning] at hrun
    split_ifs at hrun with ht
    · exact hstaffed m (ht ▸ hm) (ht ▸ hrun)
    · exact hothers t' m ht hm hrun

/-- The states, when the thread leaves the main fiber of its scheduler for `b`. -/
theorem working_enter (h : Pool s) (hleaver : s.isTask (s.thread t).running = false)
    (htask : s.isTask f = true) (hf : s.Exists f) :
    Function.update s.m_state b .EXEC f = .EXEC ↔
      f = b ∨ ∃ t', t' ≠ t ∧ (s.thread t').running = f := by
  rcases eq_or_ne f b with rfl | hne
  · rw [Function.update_self]
    exact iff_of_true rfl (.inl rfl)
  · rw [Function.update_of_ne hne, h.working f htask hf]
    constructor
    · rintro ⟨t', hrun⟩
      refine .inr ⟨t', ?_, hrun⟩
      rintro rfl
      rw [hrun, htask] at hleaver
      cases hleaver
    · rintro (heq | ⟨t', -, hrun⟩)
      · exact absurd heq hne
      · exact ⟨t', hrun⟩

/-- The states, when a fiber leaves that is no longer in `EXEC`. -/
theorem working_leave (ho : Orderly s) (h : Pool s) (hb : s.isTask b = false) {v : FiberState}
    (hv : v ≠ .EXEC) (htask : s.isTask f = true) (hf : s.Exists f) :
    Function.update s.m_state (s.thread t).running v f = .EXEC ↔
      f = b ∨ ∃ t', t' ≠ t ∧ (s.thread t').running = f := by
  have hne : f ≠ b := by
    rintro rfl
    rw [htask] at hb
    cases hb
  rw [or_iff_right hne]
  rcases eq_or_ne f (s.thread t).running with rfl | hleaver
  · rw [Function.update_self]
    exact iff_of_false hv fun ⟨t', ht', hrun⟩ => ht' (ho.apart t' t hrun)
  · rw [Function.update_of_ne hleaver, h.working f htask hf]
    refine exists_congr fun t' => (and_iff_right_of_imp ?_).symm
    rintro hrun rfl
    exact hleaver hrun.symm

/-- A switch that keeps order goes to the fiber it names. -/
theorem swapcontext_eq_switched {a : Id}
    (h : Orderly ((s.leaving t b m_state isOver).swapcontext t a b)) :
    (s.leaving t b m_state isOver).swapcontext t a b = s.switched t a b b m_state isOver := by
  rw [swapcontext_leaving] at h ⊢
  cases hctx : Function.update s.m_ctx a (some (s.thread t).running) b with
  | none =>
    rw [hctx] at h
    exact absurd h (not_orderly_fail _)
  | some g =>
    rw [hctx] at h
    simp only at h ⊢
    split_ifs at h ⊢
    · exact absurd h (not_orderly_fail _)
    · rw [← eq_of_orderly_switched h]

end Switch

/-! ### What the calls keep -/

section Calls

/-- A fiber that nobody runs gets another state, and may begin again. -/
theorem pool_setState (h : Pool s) {v : FiberState} (hv : v ≠ .EXEC)
    (hidle : ∀ t, (s.thread t).running ≠ f) {isOver : Id → Bool}
    (hover : ∀ g, isOver g = true → s.isOver g = true ∧ g ≠ f) :
    Pool { s.setState f v with isOver } where
  lane := h.lane
  mains := h.mains
  owned := h.owned
  home := h.home
  kept := h.kept
  working g htask hg := by
    show Function.update s.m_state f v g = .EXEC ↔ _
    rcases eq_or_ne g f with rfl | hne
    · rw [Function.update_self]
      exact iff_of_false hv fun ⟨t, hrun⟩ => hidle t hrun
    · rw [Function.update_of_ne hne]
      exact h.working g htask hg
  ended n hn := by
    show Function.update s.m_state f v (.made n) = _ ∨ Function.update s.m_state f v (.made n) = _
    rw [Function.update_of_ne (hover _ hn).2]
    exact h.ended n (hover _ hn).1
  lasting t := by
    rw [Bool.eq_false_iff]
    intro hn
    exact Bool.false_ne_true ((h.lasting t).symm.trans (hover _ hn).1)
  staffed t m hm hrun := by
    rw [Bool.eq_false_iff]
    intro hn
    exact Bool.false_ne_true ((h.staffed t m hm hrun).symm.trans (hover _ hn).1)

theorem idle_of_state (h : Pool s) (htask : s.isTask f = true) (hf : s.Exists f)
    (hstate : s.m_state f ≠ .EXEC) (t : ℕ) : (s.thread t).running ≠ f :=
  fun hrun => hstate ((h.working f htask hf).mpr ⟨t, hrun⟩)

theorem pool_settle (h : Pool s) (htask : s.isTask f = true) (hf : s.Exists f)
    (hstate : s.m_state f ≠ .EXEC) : Pool (s.settle f) := by
  unfold settle
  split_ifs with hdone
  · exact h
  · simp only [not_or] at hdone
    have hover := over_of_state h hdone.2.1 hdone.2.2
    have hidle := idle_of_state h htask hf hstate
    refine pool_setState (v := .HOLD) h (by decide) hidle fun g hg => ⟨hg, ?_⟩
    rintro rfl
    exact Bool.false_ne_true (hover.symm.trans hg)

theorem pool_swapIn (ho : Orderly s) (h : Pool s) (hf : s.Exists f)
    (hmain : (s.thread t).mainFiber = some (s.thread t).running) (htask : s.isTask f = true)
    (hmeets : s.m_state f ≠ .EXEC ∧ (s.thread t).mainFiber = some (s.thread t).running ∧
      s.CanResume t f) : Pool (s.swapIn t f) := by
  have horder := (orderly_swapIn_iff (t := t) ho hf).mpr hmeets
  rw [swapIn_eq hmeets.1 hmain] at horder ⊢
  rw [swapcontext_eq_switched horder]
  refine pool_switched h _ (.inr ⟨_, hmain, .inr htask⟩) ?_ ?_ ?_ ?_ h.lasting ?_ ?_
  · rintro t' rfl
    cases htask
  · rintro t' m hm rfl
    rw [isTask_of_mains h hm] at htask
    cases htask
  · exact fun g => working_enter h (isTask_of_mains h hmain)
  · intro n hn
    have hne : Id.made n ≠ f := by
      rintro rfl
      exact Bool.false_ne_true (hmeets.2.2.1.symm.trans hn)
    rw [Function.update_of_ne hne]
    exact h.ended n hn
  · -- the main fiber of the scheduler was running
    intro m hm _
    obtain rfl := Option.some.inj (hm.symm.trans hmain)
    exact ho.alive t
  · exact fun t' m _ hm hrun => h.staffed t' m hm hrun

theorem pool_call (ho : Orderly s) (h : Pool s) (hf : s.Exists f)
    (hrun : (s.thread t).running = .main t) (hmain : (s.thread t).mainFiber = some f)
    (hmeets : (s.thread t).t_threadFiber = some (s.thread t).running ∧ s.CanResume t f) :
    Pool (s.call t f) := by
  have horder := (orderly_call_iff (t := t) ho hf).mpr hmeets
  rw [call_eq hmeets.1] at horder ⊢
  rw [swapcontext_eq_switched horder]
  refine pool_switched h _ (.inr ⟨f, hmain, .inl rfl⟩) ?_ ?_ ?_ ?_ h.lasting ?_ ?_
  · rintro t' rfl
    rcases h.mains t _ hmain with heq | ⟨n, heq, -⟩
    · exact (Id.main.inj heq).symm
    · cases heq
  · rintro t' m hm rfl
    exact h.owned t t' f hmain hm
  · intro g
    apply working_enter h
    rw [hrun]
    rfl
  · intro n hn
    have hne : Id.made n ≠ f := by
      rintro rfl
      exact Bool.false_ne_true (hmeets.2.1.symm.trans hn)
    rw [Function.update_of_ne hne]
    exact h.ended n hn
  · intro m hm _
    obtain rfl := Option.some.inj (hm.symm.trans hmain)
    exact hmeets.2.1
  · exact fun t' m _ hm hrun => h.staffed t' m hm hrun

/-- A fiber leaves for the main fiber of the scheduler, or the root fiber for that of the thread. -/
theorem pool_leave (ho : Orderly s) (h : Pool s) {v : FiberState} {isOver : Id → Bool}
    (hv : v ≠ .EXEC) (hlane : b = .main t ∨ (s.thread t).mainFiber = some b)
    (hover : ∀ f, f ≠ (s.thread t).running → isOver f = s.isOver f)
    (hended : isOver (s.thread t).running = true → v = .TERM ∨ v = .EXCEPT)
    (hstaffed : b = .main t ∨ isOver b = false) (hrun : (s.thread t).running ≠ .main t) :
    Pool (s.switched t (s.thread t).running b b
      (Function.update s.m_state (s.thread t).running v) isOver) := by
  have hb : s.isTask b = false := by
    rcases hlane with rfl | hm
    · rfl
    · exact isTask_of_mains h hm
  refine pool_switched h _ (hlane.imp id fun hm => ⟨b, hm, .inl rfl⟩) ?_ ?_ ?_ ?_ ?_ ?_ ?_
  · rintro t' rfl
    rcases hlane with heq | hm
    · exact (Id.main.inj heq).symm
    · rcases h.mains t _ hm with heq | ⟨n, heq, -⟩
      · exact (Id.main.inj heq).symm
      · cases heq
  · rintro t' m hm rfl
    rcases hlane with rfl | hm'
    · rcases h.mains t' _ hm with heq | ⟨n, heq, -⟩
      · exact Id.main.inj heq
      · cases heq
    · exact h.owned t t' b hm' hm
  · exact fun g => working_leave ho h hb hv
  · intro n hn
    rcases eq_or_ne (Id.made n) (s.thread t).running with heq | hne
    · rw [heq, Function.update_self]
      exact hended (heq ▸ hn)
    · rw [Function.update_of_ne hne]
      exact h.ended n ((hover _ hne).symm.trans hn)
  · intro t'
    rw [hover]
    · exact h.lasting t'
    · intro heq
      obtain rfl := h.home t' t heq.symm
      exact hrun heq.symm
  · intro m hm hne
    rcases hstaffed with heq | hresume
    · exact absurd heq hne
    · rcases hlane with heq | hm'
      · exact absurd heq hne
      · obtain rfl := Option.some.inj (hm.symm.trans hm')
        exact hresume
  · intro t' m ht' hm hrun'
    rw [hover]
    · exact h.staffed t' m hm hrun'
    · intro heq
      exact ht' (h.kept t' t m hm heq.symm).symm

theorem t_fiber_of_mainFiber (ho : Orderly s) {m : Id} (hm : (s.thread t).mainFiber = some m) :
    (s.thread t).t_fiber = some (s.thread t).running := by
  rcases ho.names t with ⟨hfiber, -⟩ | hfresh
  · exact hfiber
  · rw [hfresh] at hm
    cases hm

theorem pool_yieldTo (ho : Orderly s) (h : Pool s) {v : FiberState} (hv : v ≠ .EXEC)
    (hrun : (s.thread t).running ≠ .main t)
    (hmeets : s.m_state (s.thread t).running = .EXEC ∧
      ∃ m, (s.thread t).mainFiber = some m ∧ s.CanResume t m) : Pool (s.yieldTo t v) := by
  have horder := (orderly_yieldTo_iff ho v).mpr hmeets
  obtain ⟨hstate, m, hm, hresume⟩ := hmeets
  have hyield : s.yieldTo t v = (s.setState (s.thread t).running v).swapOut t (s.thread t).running
      := by
    rw [yieldTo, getThis, t_fiber_of_mainFiber ho hm]
    exact if_pos hstate
  have hout : s.yieldTo t v = (s.leaving t m (Function.update s.m_state (s.thread t).running v)
      s.isOver).swapcontext t (s.thread t).running m :=
    hyield.trans (swapOut_eq _ _ hm)
  rw [hout] at horder ⊢
  rw [swapcontext_eq_switched horder]
  refine pool_leave ho h hv (.inr hm) (fun _ _ => rfl) ?_ (.inr hresume.1) hrun
  rw [ho.alive t]
  exact fun hover => absurd hover Bool.false_ne_true

theorem pool_finish (ho : Orderly s) (h : Pool s) (throws : Bool)
    (hmeets : ∀ n, (s.thread t).running = .made n →
      ∃ m, (if s.useCaller (.made n) then (s.thread t).t_threadFiber
          else (s.thread t).mainFiber) = some m ∧
        m ≠ .made n ∧ s.CanResume t m) : Pool (s.finish t throws) := by
  have horder := (orderly_finish_iff ho throws).mpr hmeets
  cases hrun : (s.thread t).running with
  | main t' =>
    rw [finish, hrun]
    exact h
  | made n =>
    obtain ⟨b, hb, hne, hresume⟩ := hmeets n hrun
    let v : FiberState := if throws then .EXCEPT else .TERM
    have hdone : v = .TERM ∨ v = .EXCEPT := by
      cases throws
      · exact .inl rfl
      · exact .inr rfl
    have hv : v ≠ .EXEC := by
      rcases hdone with hv | hv <;> rw [hv] <;> decide
    have hover : ∀ f, f ≠ (s.thread t).running →
        Function.update s.isOver (.made n) true f = s.isOver f :=
      fun f hf => Function.update_of_ne (hrun ▸ hf) ..
    have hfinish : s.finish t throws = (s.leaving t b (Function.update s.m_state (.made n) v)
        (Function.update s.isOver (.made n) true)).swapcontext t (.made n) b := by
      rw [finish, hrun]
      simp only
      rw [ho.begun t n hrun, Option.elim_some]
      by_cases hcaller : s.useCaller (.made n) = true
      · rw [if_pos hcaller] at hb
        exact (if_pos hcaller).trans (back_eq _ _ hb)
      · rw [if_neg hcaller] at hb
        exact (if_neg hcaller).trans (swapOut_eq _ _ hb)
    have hlane : b = .main t ∨ (s.thread t).mainFiber = some b := by
      split_ifs at hb
      · rcases ho.names t with ⟨-, hthread⟩ | hfresh
        · exact .inl (Option.some.inj (hb.symm.trans hthread))
        · rw [hfresh] at hrun
          cases hrun
      · exact .inr hb
    rw [hfinish] at horder ⊢
    rw [swapcontext_eq_switched horder, ← hrun]
    rw [hrun] at hover
    refine pool_leave ho h hv hlane (hrun ▸ hover) (fun _ => hdone) (.inr ?_) ?_
    · rw [hrun, Function.update_of_ne hne]
      exact hresume.1
    · rw [hrun]
      exact made_ne_main n t

theorem pool_reset (h : Pool s) (htask : s.isTask f = true) (hf : s.Exists f)
    (hstate : s.m_state f = .INIT ∨ s.m_state f = .TERM ∨ s.m_state f = .EXCEPT) :
    Pool (s.reset f) := by
  have hexec : s.m_state f ≠ .EXEC := by
    rintro hexec
    rw [hexec] at hstate
    simp at hstate
  have hcaller : Function.update s.useCaller f false = s.useCaller := by
    cases f with
    | main t => cases htask
    | made n =>
      refine Function.update_eq_self_iff.mpr ?_
      simpa [isTask] using htask
  have hinit : Pool { s.setState f .INIT with isOver := Function.update s.isOver f false } := by
    have hinit : FiberState.INIT ≠ .EXEC := by decide
    refine pool_setState h hinit (idle_of_state h htask hf hexec) fun g hg => ?_
    rw [Function.update_apply] at hg
    split_ifs at hg with hgf
    exact ⟨hg, hgf⟩
  rw [reset, if_pos hstate, hcaller]
  exact ⟨hinit.lane, hinit.mains, hinit.owned, hinit.home, hinit.kept, hinit.working, hinit.ended,
    hinit.lasting, hinit.staffed⟩

theorem pool_makeMain (h : Pool s) (hfresh : s.thread t = new.thread t) : Pool (s.makeMain t) := by
  have hrunning (t' : ℕ) : ((s.makeMain t).thread t').running = (s.thread t').running := by
    rw [thread_makeMain]
    split_ifs with ht <;> simp only [hfresh, ht]
  have hmain (t' : ℕ) : ((s.makeMain t).thread t').mainFiber = (s.thread t').mainFiber := by
    rw [thread_makeMain]
    split_ifs with ht <;> simp only [hfresh, ht]
  constructor
  · intro t'
    rw [hrunning, hmain]
    exact h.lane t'
  · intro t' m hm
    exact h.mains t' m ((hmain t').symm.trans hm)
  · intro t₁ t₂ m h₁ h₂
    exact h.owned t₁ t₂ m ((hmain t₁).symm.trans h₁) ((hmain t₂).symm.trans h₂)
  · intro t₁ t₂ hrun
    exact h.home t₁ t₂ ((hrunning t₂).symm.trans hrun)
  · intro t₁ t₂ m hm hrun
    exact h.kept t₁ t₂ m ((hmain t₁).symm.trans hm) ((hrunning t₂).symm.trans hrun)
  · intro f htask hf
    cases f with
    | main t' => cases htask
    | made n =>
      simp only [hrunning]
      show Function.update s.m_state (.main t) .EXEC (.made n) = _ ↔ _
      rw [Function.update_of_ne (made_ne_main n t)]
      exact h.working (.made n) htask hf
  · intro n hn
    show Function.update s.m_state (.main t) .EXEC (.made n) = _ ∨
      Function.update s.m_state (.main t) .EXEC (.made n) = _
    rw [Function.update_of_ne (made_ne_main n t)]
    exact h.ended n hn
  · exact h.lasting
  · intro t' m hm hrun
    exact h.staffed t' m ((hmain t').symm.trans hm) fun heq => hrun ((hrunning t').trans heq)

theorem pool_getThis (ho : Orderly s) (h : Pool s) (t : ℕ) : Pool (s.getThis t).2 := by
  rcases getThis_cases ho t with ⟨hget, -⟩ | ⟨hget, hfresh⟩ <;> rw [hget]
  · exact h
  · exact pool_makeMain h hfresh

theorem pool_make (ho : Orderly s) (h : Pool s) (use_caller : Bool) :
    Pool (s.make use_caller) := by
  -- the new fiber is nobody's
  have hold {m : Id} (hm : s.Exists m) : m ≠ .made s.made := by
    rintro rfl
    exact Nat.lt_irrefl _ hm
  have htask {m : Id} (hm : m ≠ .made s.made) : (s.make use_caller).isTask m = s.isTask m := by
    cases m with
    | main t => rfl
    | made n =>
      show (!Function.update s.useCaller (.made s.made) use_caller (.made n)) = _
      rw [Function.update_of_ne hm]
      rfl
  constructor
  · intro t
    show (s.thread t).running = _ ∨ ∃ m, (s.thread t).mainFiber = _ ∧
      ((s.thread t).running = _ ∨ (s.make use_caller).isTask (s.thread t).running = _)
    rw [htask (running_ne_made ho t)]
    exact h.lane t
  · intro t m hm
    refine (h.mains t m hm).imp id fun ⟨n, heq, hcaller⟩ => ⟨n, heq, ?_⟩
    show Function.update s.useCaller (.made s.made) use_caller m = true
    rw [Function.update_of_ne (hold (ho.born t m (.inr hm)))]
    exact hcaller
  · exact h.owned
  · exact h.home
  · exact h.kept
  · intro f htask' hf
    show Function.update s.m_state (.made s.made) .INIT f = .EXEC ↔ ∃ t, (s.thread t).running = f
    rcases eq_or_ne f (.made s.made) with rfl | hne
    · rw [Function.update_self]
      exact iff_of_false (by decide) fun ⟨t, hrun⟩ => running_ne_made ho t hrun
    · rw [Function.update_of_ne hne]
      exact h.working f ((htask hne).symm.trans htask')
        (((exists_make use_caller).mp hf).resolve_left hne)
  · intro n hn
    show Function.update s.m_state (.made s.made) .INIT (.made n) = _ ∨
      Function.update s.m_state (.made s.made) .INIT (.made n) = _
    replace hn : Function.update s.isOver (.made s.made) false (.made n) = true := hn
    rw [Function.update_apply] at hn
    split_ifs at hn with hne
    rw [Function.update_of_ne hne]
    exact h.ended n hn
  · intro t
    show Function.update s.isOver (.made s.made) false (.main t) = false
    rw [Function.update_of_ne (made_ne_main s.made t).symm]
    exact h.lasting t
  · intro t m hm hrun
    show Function.update s.isOver (.made s.made) false m = false
    rw [Function.update_of_ne (hold (ho.born t m (.inr hm)))]
    exact h.staffed t m hm hrun

/-- A thread that is in its own code gets a scheduler. -/
theorem pool_setMain (h : Pool s) {m : Id} (hrun : (s.thread t).running = .main t)
    (hm : m = .main t ∨ ∃ n, m = .made n ∧ s.useCaller m = true)
    (howned : ∀ t', t' ≠ t → (s.thread t').mainFiber ≠ some m)
    (hkept : ∀ t', (s.thread t').running = m → t' = t) : Pool (s.setMain t m) := by
  have hrunning (t' : ℕ) : ((s.setMain t m).thread t').running = (s.thread t').running := by
    rw [thread_setMain]
    split_ifs with ht
    · rw [ht]
    · rfl
  have hmain {t' : ℕ} {m' : Id} (h' : ((s.setMain t m).thread t').mainFiber = some m') :
      (t' = t ∧ m' = m) ∨ t' ≠ t ∧ (s.thread t').mainFiber = some m' := by
    rw [thread_setMain] at h'
    split_ifs at h' with ht
    · exact .inl ⟨ht, (Option.some.inj h').symm⟩
    · exact .inr ⟨ht, h'⟩
  constructor
  · intro t'
    rw [hrunning]
    rcases eq_or_ne t' t with rfl | ht
    · exact .inl hrun
    · rw [thread_setMain, if_neg ht]
      exact h.lane t'
  · intro t' m' h'
    rcases hmain h' with ⟨rfl, rfl⟩ | ⟨-, h'⟩
    · exact hm
    · exact h.mains t' m' h'
  · intro t₁ t₂ m' h₁ h₂
    rcases hmain h₁ with ⟨ht₁, hm₁⟩ | ⟨ht₁, h₁⟩ <;> rcases hmain h₂ with ⟨ht₂, hm₂⟩ | ⟨ht₂, h₂⟩
    · exact ht₁.trans ht₂.symm
    · rw [hm₁] at h₂
      exact absurd h₂ (howned t₂ ht₂)
    · rw [hm₂] at h₁
      exact absurd h₁ (howned t₁ ht₁)
    · exact h.owned t₁ t₂ m' h₁ h₂
  · intro t₁ t₂ hrun
    exact h.home t₁ t₂ ((hrunning t₂).symm.trans hrun)
  · intro t₁ t₂ m' h' hrun'
    rw [hrunning] at hrun'
    rcases hmain h' with ⟨rfl, rfl⟩ | ⟨-, h'⟩
    · exact hkept t₂ hrun'
    · exact h.kept t₁ t₂ m' h' hrun'
  · intro f htask hf
    simp only [hrunning]
    refine h.working f htask ?_
    cases f with
    | main t' => cases htask
    | made n => exact hf
  · exact h.ended
  · exact h.lasting
  · intro t' m' h' hrun'
    rw [hrunning] at hrun'
    rcases hmain h' with ⟨rfl, rfl⟩ | ⟨-, h'⟩
    · exact absurd hrun hrun'
    · exact h.staffed t' m' h' hrun'

theorem pool_beginRun (ho : Orderly s) (h : Pool s) (hrun : (s.thread t).running = .main t) :
    Pool (s.beginRun t) := by
  obtain ⟨hthis, hrun', -⟩ := getThis_spec ho t
  have hget := pool_getThis ho h t
  have hthis' : (s.getThis t).1 = .main t := hthis.trans hrun
  rw [beginRun, hthis']
  refine pool_setMain hget (hrun'.trans hrun) (.inl rfl) (fun t' ht' h' => ?_)
    fun t' => hget.home t t'
  rcases hget.mains t' _ h' with heq | ⟨n, heq, -⟩
  · exact ht' (Id.main.inj heq).symm
  · cases heq

theorem pool_makeRoot (ho : Orderly s) (h : Pool s) (hrun : (s.thread t).running = .main t) :
    Pool (s.makeRoot t) := by
  obtain ⟨-, hrun', -⟩ := getThis_spec ho t
  have hgeto := orderly_getThis ho t
  have hget := pool_getThis ho h t
  refine pool_setMain (pool_make hgeto hget true) (hrun'.trans hrun)
    (.inr ⟨_, rfl, Function.update_self ..⟩) (fun t' _ h' => ?_)
    fun t' heq => absurd heq (running_ne_made hgeto t')
  have hlt : (s.getThis t).2.Exists (.made (s.getThis t).2.made) := hgeto.born t' _ (.inr h')
  exact Nat.lt_irrefl _ hlt

end Calls

/-! ### Runs -/

theorem pool_step (ho : Orderly s) (h : Pool s) {a : ℕ × Call} (ha : s.Follows a) :
    Pool (s.step a) := by
  have hmeets := meets_of_follows ho h ha
  obtain ⟨t, c⟩ := a
  unfold step
  rw [ho.fault]
  simp only [Option.isSome_none, Bool.false_eq_true, if_false]
  have hguard {f : Id} {s' : Fibers} (h' : s.Exists f → Pool s') :
      Pool (if s.Exists f then s' else s) := by
    split_ifs with hf
    · exact h' hf
    · exact h
  cases c with
  | getThis => exact pool_getThis ho h t
  | new => exact pool_make ho h false
  | reset f => exact hguard fun hf => pool_reset h ha.2.1 hf ha.2.2
  | swapIn f => exact hguard fun hf => pool_swapIn ho h hf ha.1 ha.2.1 (hmeets hf)
  | call f => exact hguard fun hf => pool_call ho h hf ha.1 ha.2.1 (hmeets hf)
  | yieldToHold => exact pool_yieldTo ho h (by decide) ha.1 hmeets
  | yieldToReady => exact pool_yieldTo ho h (by decide) ha.1 hmeets
  | finish throws => exact pool_finish ho h throws hmeets
  | scheduler => exact pool_makeRoot ho h ha
  | run => exact pool_beginRun ho h ha
  | settle f => exact hguard fun hf => pool_settle h ha.2.1 hf ha.2.2

theorem pool_new : Pool new where
  lane t := .inl rfl
  mains t m hm := by cases hm
  owned t t' m hm := by cases hm
  home t t' hrun := Id.main.inj hrun
  kept t t' m hm := by cases hm
  working f htask hf := by
    cases f with
    | main t => cases htask
    | made n => exact absurd hf (Nat.not_lt_zero n)
  ended n hn := by cases hn
  lasting t := rfl
  staffed t m hm := by cases hm

/-- **Schedulers switch in order.** Whatever the number of threads, of schedulers and of tasks, and
however their steps interleave: when the calls are those of `Scheduler` and of its callbacks,
`GetThis` is right in every state, a switch always goes on where the other fiber left, and no
assertion fails. -/
theorem orderly_of_follows {as : List (ℕ × Call)}
    (h : Transition.StepsMeet (fun s a => some (s.step a)) Follows new as) :
    ∀ pre, pre <+: as → Orderly (pre.foldl step new) := by
  rintro pre ⟨rest, rfl⟩
  refine (Transition.invariant_of_stepsMeet (fun s => Orderly s ∧ Pool s) ?_
    ⟨orderly_new, pool_new⟩ h.of_append (Transition.run_total step new pre)).1
  rintro s a s' ⟨ho, h⟩ ha hnext
  obtain rfl := Option.some.inj hnext
  exact ⟨(orderly_step_iff ho a).mpr (meets_of_follows ho h ha), pool_step ho h ha⟩

/-- A task that goes on in another thread than it began, and the root fiber of a third. -/
def migration : List (ℕ × Call) :=
  [(0, .run), (0, .new), (0, .swapIn (.made 0)), (2, .scheduler), (0, .yieldToHold),
    (0, .settle (.made 0)), (1, .run), (1, .swapIn (.made 0)), (2, .call (.made 1)),
    (1, .getThis), (1, .finish false), (2, .finish false), (1, .reset (.made 0))]

theorem orderly_of_follows_migration : Orderly (migration.foldl step new) :=
  orderly_of_follows (by decide +kernel) migration List.prefix_rfl

end Fibers

end Muhui
