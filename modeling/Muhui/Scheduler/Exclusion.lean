/-
  Can two workers run one fiber?

  The scan of `m_fibers` passes over fibers in the state `EXEC`, which is meant to keep a fiber
  that is still running from being taken.  It does not: `YieldToHold` writes `HOLD` before the
  context is saved, so a wake-up that comes in between lets another worker take the fiber and
  resume a stale context; and a fiber that has been scheduled twice is taken by two workers while
  its state is still that of its last yield.

  `no_staleResume_of_run` says what has to be true of the scans: as long as a worker only takes a
  fiber that no other worker has between its own scan and the completion of `swapOut`, no fiber is
  resumed from a stale context and the assertion of `swapIn` holds.
-/
import Mathlib.Data.Nat.Basic
import Mathlib.Tactic.Common
import Muhui.Scheduler.Next

namespace Muhui.Scheduler

/-- The fiber a worker has in its hands, from the scan of the queue to the end of `swapOut`. -/
def Pc.held : Pc → Option ℕ
  | taken f | entering f _ | running f _ | swappingOut f _ => some f
  | _ => none

/-- The fiber whose run a worker has begun and not completed. -/
def Pc.inRun : Pc → Option ℕ
  | running f _ | swappingOut f _ => some f
  | _ => none

/-- The fiber that executes on a worker. -/
def Pc.executes : Pc → Option ℕ
  | running f _ => some f
  | _ => none

/-- The fiber a worker is concerned with. -/
def Pc.fiber : Pc → Option ℕ
  | taken f | entering f _ | running f _ | swappingOut f _ | returned f _ | counted f _
  | holding f _ => some f
  | scanning | dropping | takenCb _ => none

theorem Pc.held_of_inRun {pc : Pc} {f : ℕ} (h : pc.inRun = some f) : pc.held = some f := by
  cases pc <;> simp_all [inRun, held]

theorem Pc.fiber_of_held {pc : Pc} {f : ℕ} (h : pc.held = some f) : pc.fiber = some f := by
  cases pc <;> simp_all [held, fiber]

theorem Pc.inRun_of_executes {pc : Pc} {f : ℕ} (h : pc.executes = some f) :
    pc.inRun = some f := by
  cases pc <;> simp_all [inRun, executes]

/-- No worker but `w` has the fiber in its hands. -/
def FreeFor (s : Scheduler) (w f : ℕ) : Prop := ∀ w', w' ≠ w → (s.pc w').held ≠ some f

/-- A worker only takes a fiber that no other worker has in its hands, be it from the queue or as
the fiber for its next callback. -/
def TakesFree (s : Scheduler) : Step → Prop
  | .dequeue w => ∀ f thread ts, take s.state w s.fibers = some (⟨.fiber f, thread⟩, ts) →
      s.FreeFor w f
  | .prepare w => ∀ f, s.cbFiber w = some f → s.FreeFor w f
  | _ => True

/-- Every fiber that can be named has been constructed. -/
structure Known (fibers : List FiberAndThread) (registered : List ℕ) (cbFiber : ℕ → Option ℕ)
    (created : ℕ) : Prop where
  queued : ∀ f thread, ⟨.fiber f, thread⟩ ∈ fibers → f < created
  registered : ∀ f ∈ registered, f < created
  cbFiber : ∀ w f, cbFiber w = some f → f < created

/-- The fibers are exclusive, `EXEC` is the state of executing fibers only, and a run that has not
been completed is in the hands of a worker. -/
structure Inv (s : Scheduler) : Prop where
  exclusive : ∀ w w' f, (s.pc w).held = some f → (s.pc w').held = some f → w = w'
  exec : ∀ f, s.state f = .EXEC → ∃ w, (s.pc w).executes = some f
  inRun : ∀ f, s.inRun f = true → ∃ w, (s.pc w).inRun = some f
  created : ∀ w f, (s.pc w).fiber = some f → f < s.created
  known : Known s.fibers s.registered s.cbFiber s.created
  fault : s.fault ≠ some .swapInAssert ∧ s.fault ≠ some .staleResume

variable {s s' : Scheduler} {w f : ℕ}

theorem Inv.freeFor (h : s.Inv) (hheld : (s.pc w).held = some f) : s.FreeFor w f :=
  fun w' hne hheld' => hne (h.exclusive w' w f hheld' hheld)

/-! ### Known fibers -/

section Known

variable {fibers : List FiberAndThread} {registered : List ℕ} {cbFiber : ℕ → Option ℕ}
  {created : ℕ}

theorem Known.push (h : Known fibers registered cbFiber created) {job : Job}
    (thread : Option ℕ) (hjob : ∀ f, job = .fiber f → f < created) :
    Known (fibers ++ [⟨job, thread⟩]) registered cbFiber created := by
  refine ⟨fun f thread' hmem => ?_, h.registered, h.cbFiber⟩
  rcases List.mem_append.mp hmem with hmem | hmem
  · exact h.queued f thread' hmem
  · obtain ⟨heq, -⟩ := FiberAndThread.mk.inj (List.mem_singleton.mp hmem)
    exact hjob f heq.symm

theorem Known.setCbFiber (h : Known fibers registered cbFiber created) (w : ℕ) {o : Option ℕ}
    (ho : ∀ f, o = some f → f < created) :
    Known fibers registered (Function.update cbFiber w o) created := by
  refine ⟨h.queued, h.registered, fun w' f hf => ?_⟩
  by_cases hw' : w' = w
  · subst hw'
    rw [Function.update_self] at hf
    exact ho f hf
  · rw [Function.update_of_ne hw'] at hf
    exact h.cbFiber w' f hf

theorem Known.mono (h : Known fibers registered cbFiber created) {created' : ℕ}
    (hle : created ≤ created') : Known fibers registered cbFiber created' :=
  ⟨fun f thread hf => lt_of_lt_of_le (h.queued f thread hf) hle,
    fun f hf => lt_of_lt_of_le (h.registered f hf) hle,
    fun w f hf => lt_of_lt_of_le (h.cbFiber w f hf) hle⟩

end Known

/-- What is in the queue after a scan was there before, and so was the task it took. -/
theorem mem_of_take {state : ℕ → FiberState} {t : FiberAndThread} {q ts : List FiberAndThread}
    (h : take state w q = some (t, ts)) : t ∈ q ∧ ∀ t' ∈ ts, t' ∈ q := by
  induction q generalizing ts with
  | nil => cases h
  | cons t₀ q ih =>
    rw [take] at h
    split_ifs at h with hskip
    · -- the head stays, the task comes from further behind
      obtain ⟨⟨t₁, ts₁⟩, hrest, heq⟩ := Option.map_eq_some_iff.mp h
      obtain ⟨rfl, rfl⟩ := Prod.mk.inj heq
      obtain ⟨hmem, hsub⟩ := ih hrest
      refine ⟨List.mem_cons_of_mem _ hmem, fun t' ht' => ?_⟩
      rcases List.mem_cons.mp ht' with rfl | ht'
      · exact List.mem_cons_self
      · exact List.mem_cons_of_mem _ (hsub t' ht')
    · obtain ⟨rfl, rfl⟩ := Prod.mk.inj (Option.some.inj h)
      exact ⟨List.mem_cons_self, fun t' ht' => List.mem_cons_of_mem _ ht'⟩

/-! ### Steps -/

/-- What a step that moves worker `w` to `pc` has to show. -/
theorem Inv.step (h : s.Inv) (pc : Pc) (hpc : s'.pc = Function.update s.pc w pc)
    (hcreated : s.created ≤ s'.created)
    (hknown : Known s'.fibers s'.registered s'.cbFiber s'.created)
    (hfiber : ∀ f, pc.fiber = some f → f < s'.created)
    (hheld : ∀ f, pc.held = some f → s.FreeFor w f)
    (hexec : ∀ f, s'.state f = .EXEC →
      pc.executes = some f ∨ s.state f = .EXEC ∧ (s.pc w).executes ≠ some f)
    (hinRun : ∀ f, s'.inRun f = true →
      pc.inRun = some f ∨ s.inRun f = true ∧ (s.pc w).inRun ≠ some f)
    (hfault : s'.fault = s.fault) : s'.Inv where
  exclusive := by
    have hother : ∀ w' f, (s'.pc w').held = some f → w' ≠ w → (s.pc w').held = some f := by
      intro w' f hf hne
      rwa [hpc, Function.update_of_ne hne] at hf
    have hself : ∀ f, (s'.pc w).held = some f → s.FreeFor w f := by
      intro f hf
      rw [hpc, Function.update_self] at hf
      exact hheld f hf
    intro w₁ w₂ f h₁ h₂
    by_cases hw₁ : w₁ = w <;> by_cases hw₂ : w₂ = w
    · rw [hw₁, hw₂]
    · subst hw₁
      exact absurd (hother w₂ f h₂ hw₂) (hself f h₁ w₂ hw₂)
    · subst hw₂
      exact absurd (hother w₁ f h₁ hw₁) (hself f h₂ w₁ hw₁)
    · exact h.exclusive w₁ w₂ f (hother w₁ f h₁ hw₁) (hother w₂ f h₂ hw₂)
  exec f hf := by
    rcases hexec f hf with hself | ⟨hold, hne⟩
    · exact ⟨w, by rw [hpc, Function.update_self, hself]⟩
    · obtain ⟨w', hw'⟩ := h.exec f hold
      have hww' : w' ≠ w := fun heq => hne (heq ▸ hw')
      exact ⟨w', by rw [hpc, Function.update_of_ne hww', hw']⟩
  inRun f hf := by
    rcases hinRun f hf with hself | ⟨hold, hne⟩
    · exact ⟨w, by rw [hpc, Function.update_self, hself]⟩
    · obtain ⟨w', hw'⟩ := h.inRun f hold
      have hww' : w' ≠ w := fun heq => hne (heq ▸ hw')
      exact ⟨w', by rw [hpc, Function.update_of_ne hww', hw']⟩
  created w' f hf := by
    by_cases hw' : w' = w
    · subst hw'
      rw [hpc, Function.update_self] at hf
      exact hfiber f hf
    · rw [hpc, Function.update_of_ne hw'] at hf
      exact lt_of_lt_of_le (h.created w' f hf) hcreated
  known := hknown
  fault := by rw [hfault]; exact h.fault

/-- What a step that moves nobody has to show. -/
theorem Inv.stay (h : s.Inv) (hpc : s'.pc = s.pc) (hcreated : s.created ≤ s'.created)
    (hknown : Known s'.fibers s'.registered s'.cbFiber s'.created)
    (hexec : ∀ f, s'.state f = .EXEC → s.state f = .EXEC) (hinRun : s'.inRun = s.inRun)
    (hfault : s'.fault ≠ some .swapInAssert ∧ s'.fault ≠ some .staleResume) : s'.Inv where
  exclusive := by rw [hpc]; exact h.exclusive
  exec f hf := by rw [hpc]; exact h.exec f (hexec f hf)
  inRun := by rw [hpc, hinRun]; exact h.inRun
  created w f hf := lt_of_lt_of_le (h.created w f (hpc ▸ hf)) hcreated
  known := hknown
  fault := hfault

/-- A write of a state other than `EXEC` makes no fiber execute. -/
theorem exec_of_setState {st : FiberState} (hst : st ≠ .EXEC) {g : ℕ}
    (hg : (s.setState f st).state g = .EXEC) : s.state g = .EXEC ∧ g ≠ f := by
  have hupdate : (s.setState f st).state g = if g = f then st else s.state g :=
    Function.update_apply s.state f st g
  rw [hupdate] at hg
  split_ifs at hg with hgf
  · exact absurd hg hst
  · exact ⟨hg, hgf⟩

/-- A worker whose fiber is not executing moves on to something that is free for it. -/
theorem Inv.pickUp (h : s.Inv) (pc : Pc) (hpc : s'.pc = Function.update s.pc w pc)
    (hempty : (s.pc w).inRun = none) (hcreated : s.created ≤ s'.created)
    (hknown : Known s'.fibers s'.registered s'.cbFiber s'.created)
    (hfiber : ∀ f, pc.fiber = some f → f < s'.created)
    (hheld : ∀ f, pc.held = some f → s.FreeFor w f)
    (hexec : ∀ f, s'.state f = .EXEC → s.state f = .EXEC)
    (hinRun : s'.inRun = s.inRun) (hfault : s'.fault = s.fault) : s'.Inv := by
  refine h.step pc hpc hcreated hknown hfiber hheld
    (fun f hf => Or.inr ⟨hexec f hf, fun hself => ?_⟩)
    (fun f hf => Or.inr ⟨hinRun ▸ hf, fun hself => ?_⟩) hfault
  · rw [Pc.inRun_of_executes hself] at hempty
    cases hempty
  · rw [hself] at hempty
    cases hempty

/-- The scan takes what is free for the worker. -/
theorem Inv.took (h : s.Inv) (hfree : TakesFree s (.dequeue w)) (hpc : s.pc w = .scanning)
    {t : FiberAndThread} {ts : List FiberAndThread}
    (htake : take s.state w s.fibers = some (t, ts)) :
    (Scheduler.move { s with fibers := ts, activeThreadCount := s.activeThreadCount + 1 } w
      (.ofJob t.job)).Inv := by
  have hempty : (s.pc w).inRun = none := by rw [hpc]; rfl
  obtain ⟨hmem, hsub⟩ := mem_of_take htake
  have hknown : Known ts s.registered s.cbFiber s.created :=
    ⟨fun f thread hf => h.known.queued f thread (hsub _ hf), h.known.registered, h.known.cbFiber⟩
  obtain ⟨job, thread⟩ := t
  cases job with
  | fiber f =>
    refine h.pickUp (.taken f) rfl hempty le_rfl hknown ?_ ?_ (fun f hf => hf) rfl rfl
    · rintro _ ⟨⟩
      exact h.known.queued f thread hmem
    · rintro _ ⟨⟩
      exact hfree f thread ts htake
  | cb c =>
    exact h.pickUp (.takenCb c) rfl hempty le_rfl hknown (by rintro _ ⟨⟩) (by rintro _ ⟨⟩)
      (fun f hf => hf) rfl rfl

/-- Nobody has a fiber in its hands that has only just been constructed. -/
theorem Inv.constructed (h : s.Inv) {c : ℕ} (hpc : s.pc w = .takenCb c) :
    Inv { (s.setState s.created .INIT).move w (.entering s.created true) with
      created := s.created + 1
      cbFiber := Function.update s.cbFiber w (some s.created) } := by
  have hempty : (s.pc w).inRun = none := by rw [hpc]; rfl
  refine h.pickUp (.entering s.created true) rfl hempty (Nat.le_succ _)
    ((h.known.mono (Nat.le_succ _)).setCbFiber w ?_) ?_ ?_
    (fun f hf => (exec_of_setState (by decide) hf).1) rfl rfl
  · rintro _ ⟨⟩
    exact Nat.lt_succ_self _
  · rintro _ ⟨⟩
    exact Nat.lt_succ_self _
  · rintro _ ⟨⟩ w' - hheld
    exact lt_irrefl _ (h.created w' _ (Pc.fiber_of_held hheld))

/-- Another worker that executes the fiber or has not completed its run would hold it. -/
theorem Inv.inRun_ne (h : s.Inv) {isCb : Bool} (hpc : s.pc w = .entering f isCb) (w' : ℕ) :
    (s.pc w').inRun ≠ some f := by
  intro hrun
  by_cases hw' : w' = w
  · rw [hw', hpc] at hrun
    cases hrun
  · exact h.freeFor (w := w) (by rw [hpc]; rfl) w' hw' (Pc.held_of_inRun hrun)

theorem Inv.not_swapInFault (h : s.Inv) {isCb : Bool} (hpc : s.pc w = .entering f isCb)
    {fault : Fault} : ¬ SwapInFault s f fault := by
  rintro (hexec | ⟨-, hrun⟩)
  · obtain ⟨w', hw'⟩ := h.exec f hexec
    exact h.inRun_ne hpc w' (Pc.inRun_of_executes hw')
  · obtain ⟨w', hw'⟩ := h.inRun f hrun
    exact h.inRun_ne hpc w' hw'

theorem Inv.entered (h : s.Inv) {isCb : Bool} (hpc : s.pc w = .entering f isCb) :
    Inv { (s.setState f .EXEC).move w (.running f isCb) with
      inRun := Function.update s.inRun f true } := by
  have hempty : (s.pc w).inRun = none := by rw [hpc]; rfl
  refine h.step (.running f isCb) rfl le_rfl h.known ?_ ?_ (fun g hg => ?_) (fun g hg => ?_) rfl
  · rintro _ ⟨⟩
    exact h.created w f (by rw [hpc]; rfl)
  · rintro _ ⟨⟩
    exact h.freeFor (by rw [hpc]; rfl)
  · by_cases hgf : g = f
    · exact Or.inl (congrArg some hgf.symm)
    · refine Or.inr ⟨?_, fun hself => ?_⟩
      · rwa [← show (s.setState f .EXEC).state g = s.state g from
          Function.update_of_ne hgf _ _]
      · rw [Pc.inRun_of_executes hself] at hempty
        cases hempty
  · by_cases hgf : g = f
    · exact Or.inl (congrArg some hgf.symm)
    · refine Or.inr ⟨?_, fun hself => ?_⟩
      · rwa [← show Function.update s.inRun f true g = s.inRun g from
          Function.update_of_ne hgf _ _]
      · rw [hself] at hempty
        cases hempty

/-- The run is not completed before the context is saved. -/
theorem Inv.yielded (h : s.Inv) {isCb : Bool} (hpc : s.pc w = .running f isCb) (y : Yield) :
    ((s.setState f y.state).move w (.swappingOut f isCb)).Inv := by
  refine h.step (.swappingOut f isCb) rfl le_rfl h.known ?_ ?_ (fun g hg => ?_)
    (fun g hg => ?_) rfl
  · rintro _ ⟨⟩
    exact h.created w f (by rw [hpc]; rfl)
  · rintro _ ⟨⟩
    exact h.freeFor (by rw [hpc]; rfl)
  · have hstate : y.state ≠ .EXEC := by cases y <;> decide
    obtain ⟨hexec, hgf⟩ := exec_of_setState hstate hg
    refine Or.inr ⟨hexec, fun hself => hgf ?_⟩
    rw [hpc] at hself
    exact (Option.some.inj hself).symm
  · by_cases hgf : g = f
    · exact Or.inl (congrArg some hgf.symm)
    · refine Or.inr ⟨hg, fun hself => hgf ?_⟩
      rw [hpc] at hself
      exact (Option.some.inj hself).symm

theorem Inv.swappedOut (h : s.Inv) {isCb : Bool} (hpc : s.pc w = .swappingOut f isCb) :
    Inv { s.move w (.returned f isCb) with inRun := Function.update s.inRun f false } := by
  refine h.step (.returned f isCb) rfl le_rfl h.known ?_ (by rintro _ ⟨⟩) (fun g hg => ?_)
    (fun g hg => ?_) rfl
  · rintro _ ⟨⟩
    exact h.created w f (by rw [hpc]; rfl)
  · refine Or.inr ⟨hg, fun hself => ?_⟩
    rw [hpc] at hself
    cases hself
  · have hupdate : Function.update s.inRun f false g = true := hg
    rw [Function.update_apply] at hupdate
    split_ifs at hupdate with hgf
    refine Or.inr ⟨hupdate, fun hself => hgf ?_⟩
    rw [hpc] at hself
    exact (Option.some.inj hself).symm

/-- A worker that has done with its fiber scans again. -/
theorem Inv.rescan (h : s.Inv) (hpc : s'.pc = Function.update s.pc w .scanning)
    (hempty : (s.pc w).inRun = none) (hcreated : s'.created = s.created)
    (hknown : Known s'.fibers s'.registered s'.cbFiber s.created)
    (hexec : ∀ f, s'.state f = .EXEC → s.state f = .EXEC)
    (hinRun : s'.inRun = s.inRun) (hfault : s'.fault = s.fault) : s'.Inv :=
  h.pickUp .scanning hpc hempty (Nat.le_of_eq hcreated.symm) (by rwa [hcreated]) (by rintro _ ⟨⟩)
    (by rintro _ ⟨⟩) hexec hinRun hfault

/-- **Step lemma.** -/
theorem Inv.next {a : Step} (h : s.Inv) (hfree : TakesFree s a) (hnext : s.next a = some s') :
    s'.Inv := by
  obtain ⟨-, hstep⟩ := Next.of_next hnext
  cases hstep with
  | scheduled job thread hjob =>
    refine h.stay rfl le_rfl (h.known.push thread fun f hf => ?_) (fun f hf => hf) rfl h.fault
    subst hf
    exact of_decide_eq_true hjob
  | built =>
    exact h.stay rfl (Nat.le_succ _) (h.known.mono (Nat.le_succ _))
      (fun f hf => (exec_of_setState (by decide) hf).1) rfl h.fault
  | @registered w f isCb hpc =>
    refine h.stay rfl le_rfl ⟨h.known.queued, fun g hg => ?_, h.known.cbFiber⟩ (fun f hf => hf)
      rfl h.fault
    rcases List.mem_cons.mp hg with rfl | hg
    · exact h.created w g (by rw [hpc]; rfl)
    · exact h.known.registered g hg
  | @triggered f hmem =>
    have hpush := h.known.push none fun g (hg : Job.fiber f = .fiber g) =>
      Job.fiber.inj hg ▸ h.known.registered f hmem
    exact h.stay rfl le_rfl ⟨hpush.queued, fun g hg => h.known.registered g
      (List.mem_of_mem_erase hg), hpush.cbFiber⟩ (fun f hf => hf) rfl h.fault
  | nothing hpc htake => exact h
  | took hpc htake => exact h.took hfree hpc htake
  | spent hpc hstate =>
    exact h.pickUp .dropping rfl (by rw [hpc]; rfl) le_rfl h.known (by rintro _ ⟨⟩)
      (by rintro _ ⟨⟩) (fun f hf => hf) rfl rfl
  | @alive w f hpc hstate =>
    refine h.pickUp (.entering f false) rfl (by rw [hpc]; rfl) le_rfl h.known ?_ ?_
      (fun f hf => hf) rfl rfl
    · rintro _ ⟨⟩
      exact h.created w f (by rw [hpc]; rfl)
    · rintro _ ⟨⟩
      exact h.freeFor (by rw [hpc]; rfl)
  | @reused w c f hpc hcb =>
    refine h.pickUp (.entering f true) rfl (by rw [hpc]; rfl) le_rfl h.known ?_ ?_
      (fun f hf => (exec_of_setState (by decide) hf).1) rfl rfl
    · rintro _ ⟨⟩
      exact h.known.cbFiber w f hcb
    · rintro _ ⟨⟩
      exact hfree f hcb
  | resetFailed hpc hcb => exact h.stay rfl le_rfl h.known (fun f hf => hf) rfl (by simp)
  | constructed hpc hcb => exact h.constructed hpc
  | swapInFailed hpc hfault => exact absurd hfault (h.not_swapInFault hpc)
  | entered hpc hstate hrun => exact h.entered hpc
  | yieldFailed hpc hy hstate => exact h.stay rfl le_rfl h.known (fun f hf => hf) rfl (by simp)
  | yielded hpc => exact h.yielded hpc _
  | swappedOut hpc => exact h.swappedOut hpc
  | dropped hpc =>
    exact h.rescan rfl (by rw [hpc]; rfl) rfl h.known (fun f hf => hf) rfl rfl
  | @counted w f isCb hpc =>
    refine h.pickUp (.counted f isCb) rfl (by rw [hpc]; rfl) le_rfl h.known ?_ (by rintro _ ⟨⟩)
      (fun f hf => hf) rfl rfl
    rintro _ ⟨⟩
    exact h.created w f (by rw [hpc]; rfl)
  | @ready w f isCb hpc hstate =>
    have hcreated : f < s.created := h.created w f (by rw [hpc]; rfl)
    have hpush := h.known.push none fun g (hg : Job.fiber f = .fiber g) =>
      Job.fiber.inj hg ▸ hcreated
    have hknown : Known (s.fibers ++ [⟨.fiber f, none⟩]) s.registered
        (if isCb then Function.update s.cbFiber w none else s.cbFiber) s.created := by
      cases isCb with
      | false => exact hpush
      | true => exact hpush.setCbFiber w nofun
    exact h.rescan rfl (by rw [hpc]; rfl) rfl hknown (fun f hf => hf) rfl rfl
  | @ended w f isCb hpc hstate =>
    cases isCb with
    | false => exact h.rescan rfl (by rw [hpc]; rfl) rfl h.known (fun f hf => hf) rfl rfl
    | true =>
      exact h.rescan rfl (by rw [hpc]; rfl) rfl h.known
        (fun f hf => (exec_of_setState (by decide) hf).1) rfl rfl
  | @waits w f isCb hpc hready hstate =>
    refine h.pickUp (.holding f isCb) rfl (by rw [hpc]; rfl) le_rfl h.known ?_ (by rintro _ ⟨⟩)
      (fun f hf => hf) rfl rfl
    rintro _ ⟨⟩
    exact h.created w f (by rw [hpc]; rfl)
  | @put w f isCb hpc =>
    have hknown : Known s.fibers s.registered
        (if isCb then Function.update s.cbFiber w none else s.cbFiber) s.created := by
      cases isCb with
      | false => exact h.known
      | true => exact h.known.setCbFiber w nofun
    exact h.rescan rfl (by rw [hpc]; rfl) rfl hknown
      (fun f hf => (exec_of_setState (by decide) hf).1) rfl rfl

theorem inv_init : init.Inv where
  exclusive _ _ _ h := by cases h
  exec _ h := by cases h
  inRun _ h := by cases h
  created _ _ h := by cases h
  known := ⟨fun _ _ h => absurd h List.not_mem_nil, fun _ h => absurd h List.not_mem_nil,
    fun _ _ h => by cases h⟩
  fault := by simp [init]

/-- **No fiber is resumed from a stale context**, the assertion of `swapIn` holds, and no two
workers run one fiber, in every run in which the workers only take fibers that no other worker
has in its hands. -/
theorem no_staleResume_of_run {as : List Step}
    (hfree : Transition.StepsMeet next TakesFree init as)
    (hrun : Transition.run next init as = some s) :
    s.fault ≠ some .swapInAssert ∧ s.fault ≠ some .staleResume ∧
      ∀ w w' f, (s.pc w).inRun = some f → (s.pc w').inRun = some f → w = w' := by
  have h : s.Inv := Transition.invariant_of_stepsMeet Inv
    (fun _ _ _ h hok hnext => h.next hok hnext) inv_init hfree hrun
  exact ⟨h.fault.1, h.fault.2, fun w w' f hw hw' =>
    h.exclusive w w' f (Pc.held_of_inRun hw) (Pc.held_of_inRun hw')⟩

/-- A fiber waits for an event; the event comes when the fiber has written `HOLD` and not yet
saved its context. -/
def wokenTooEarly : List Step :=
  [.newFiber, .schedule (.fiber 0) none, .dequeue 0, .check 0, .swapIn 0, .register 0,
    .yield 0 .toHold, .trigger 0, .dequeue 1, .check 1, .swapIn 1]

/-- The second worker resumes the fiber from a stale context. -/
theorem staleResume_wokenTooEarly :
    ∃ s, Transition.run next init wokenTooEarly = some s ∧ s.fault = some .staleResume :=
  ⟨_, rfl, rfl⟩

/-- A fiber that is scheduled twice is taken by two workers, and the second one fails the assertion
of `swapIn`. -/
example : ∃ s, Transition.run next init
    [.newFiber, .schedule (.fiber 0) none, .schedule (.fiber 0) none, .dequeue 0, .dequeue 1,
      .check 0, .check 1, .swapIn 0, .swapIn 1] = some s ∧ s.fault = some .swapInAssert :=
  ⟨_, rfl, rfl⟩

/-- A fiber that waits, is woken after it has switched away, and goes on with another worker. -/
def wokenInTime : List Step :=
  [.newFiber, .schedule (.fiber 0) none, .dequeue 0, .check 0, .swapIn 0, .register 0,
    .yield 0 .toHold, .swapOut 0, .trigger 0, .dequeue 1, .check 1, .swapIn 1]

theorem no_staleResume_wokenInTime :
    ∃ s, Transition.run next init wokenInTime = some s ∧ s.fault ≠ some .staleResume := by
  refine ⟨_, rfl, (@no_staleResume_of_run _ wokenInTime ?_ rfl).2.1⟩
  refine .cons rfl trivial (.cons rfl trivial (.cons rfl ?_ (.cons rfl trivial (.cons rfl trivial
    (.cons rfl trivial (.cons rfl trivial (.cons rfl trivial (.cons rfl trivial (.cons rfl ?_
    (.cons rfl trivial (.cons rfl trivial trivial)))))))))))
  · rintro f thread ts htake w' hw'
    exact (Option.some_ne_none f).symm
  · rintro f thread ts htake (_ | w') hw'
    · exact (Option.some_ne_none f).symm
    · exact (Option.some_ne_none f).symm

end Muhui.Scheduler
