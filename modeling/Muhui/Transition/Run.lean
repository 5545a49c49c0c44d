/-
  Runs of a deterministic labelled transition system.

  A system is a partial function `next : σ → α → Option σ`: the label `a : α` names the step that
  is taken and carries every choice of the environment (which thread moves, what the kernel
  answered, what the clock read), and `none` says that the step is not enabled.  Interleavings are
  therefore just lists of labels.

  The two rules everything else uses are `invariant_of_run` (an invariant of every step is an
  invariant of every run) and `invariant_of_stepsMeet` (the same for the runs whose steps all meet
  a side condition on the state they start from).
-/
import Mathlib.Data.List.Basic
import Mathlib.Data.List.Induction

namespace Muhui.Transition

variable {σ α : Type*} {next : σ → α → Option σ} {ok : σ → α → Prop}

/-- `run next s as` takes the steps `as` one after another from `s`; it is `none` when one of them
is not enabled. -/
def run (next : σ → α → Option σ) : σ → List α → Option σ
  | s, [] => some s
  | s, a :: as => (next s a).bind fun s' => run next s' as

/-- `StepsMeet next ok s as`: every step of the run from `s` along `as` starts in a state in which
`ok` allows it. -/
def StepsMeet (next : σ → α → Option σ) (ok : σ → α → Prop) : σ → List α → Prop
  | _, [] => True
  | s, a :: as => ok s a ∧ ∀ s', next s a = some s' → StepsMeet next ok s' as

@[simp] theorem run_nil (s : σ) : run next s [] = some s := rfl

theorem run_cons_eq_some {s s'' : σ} {a : α} {as : List α} :
    run next s (a :: as) = some s'' ↔ ∃ s', next s a = some s' ∧ run next s' as = some s'' := by
  rw [run, Option.bind_eq_some_iff]

theorem StepsMeet.cons {s s' : σ} {a : α} {as : List α} (hnext : next s a = some s')
    (ha : ok s a) (has : StepsMeet next ok s' as) : StepsMeet next ok s (a :: as) := by
  refine ⟨ha, fun s₁ h₁ => ?_⟩
  obtain rfl := Option.some.inj (hnext.symm.trans h₁)
  exact has

/-- Whether the steps of a given run are allowed can be computed. -/
instance StepsMeet.decidable [∀ s a, Decidable (ok s a)] :
    ∀ (s : σ) (as : List α), Decidable (StepsMeet next ok s as)
  | _, [] => .isTrue trivial
  | s, a :: as =>
    match h : next s a with
    | none =>
      decidable_of_iff (ok s a)
        ⟨fun ha => ⟨ha, fun s' hs' => by rw [h] at hs'; cases hs'⟩, And.left⟩
    | some s₁ =>
      haveI := StepsMeet.decidable s₁ as
      decidable_of_iff (ok s a ∧ StepsMeet next ok s₁ as)
        ⟨fun ⟨ha, has⟩ => .cons h ha has, fun ⟨ha, has⟩ => ⟨ha, has s₁ h⟩⟩

theorem run_append (s : σ) (as bs : List α) :
    run next s (as ++ bs) = (run next s as).bind fun s' => run next s' bs := by
  induction as generalizing s with
  | nil => rfl
  | cons a as ih =>
    rw [List.cons_append, run, run]
    cases next s a with
    | none => rfl
    | some s' => exact ih s'

/-- A system in which every step is enabled. -/
theorem run_total (step : σ → α → σ) (s : σ) (as : List α) :
    run (fun s a => some (step s a)) s as = some (as.foldl step s) := by
  induction as generalizing s with
  | nil => rfl
  | cons a as ih => exact ih (step s a)

/-- **Invariant rule for guarded runs.** What every allowed step preserves holds at the end of
every run whose steps are all allowed. -/
theorem invariant_of_stepsMeet (Inv : σ → Prop)
    (hstep : ∀ s a s', Inv s → ok s a → next s a = some s' → Inv s') :
    ∀ {as : List α} {s s' : σ}, Inv s → StepsMeet next ok s as → run next s as = some s' →
      Inv s' := by
  intro as
  induction as with
  | nil =>
    intro s s' hs _ hrun
    obtain rfl := Option.some.inj hrun
    exact hs
  | cons a as ih =>
    intro s s' hs hok hrun
    obtain ⟨s₁, h₁, hrun⟩ := run_cons_eq_some.mp hrun
    exact ih (hstep s a s₁ hs hok.1 h₁) (hok.2 s₁ h₁) hrun

/-- **Invariant rule.** What every step preserves holds at the end of every run. -/
theorem invariant_of_run (Inv : σ → Prop)
    (hstep : ∀ s a s', Inv s → next s a = some s' → Inv s') :
    ∀ {as : List α} {s s' : σ}, Inv s → run next s as = some s' → Inv s' := by
  intro as
  induction as with
  | nil =>
    intro s s' hs hrun
    obtain rfl := Option.some.inj hrun
    exact hs
  | cons a as ih =>
    intro s s' hs hrun
    obtain ⟨s₁, h₁, hrun⟩ := run_cons_eq_some.mp hrun
    exact ih (hstep s a s₁ hs h₁) hrun

/-- A weaker side condition allows more runs. -/
theorem StepsMeet.mono {ok' : σ → α → Prop} (himp : ∀ s a, ok s a → ok' s a) {as : List α} :
    ∀ {s : σ}, StepsMeet next ok s as → StepsMeet next ok' s as := by
  induction as with
  | nil => exact fun h => h
  | cons a as ih => exact fun h => ⟨himp _ _ h.1, fun s' hs' => ih (h.2 s' hs')⟩

/-- What every allowed step meets in a state of an invariant is met all along. -/
theorem StepsMeet.of_invariant {ok' : σ → α → Prop} (Inv : σ → Prop)
    (hstep : ∀ s a s', Inv s → ok s a → next s a = some s' → Inv s')
    (hmeets : ∀ s a, Inv s → ok s a → ok' s a) {as : List α} :
    ∀ {s : σ}, Inv s → StepsMeet next ok s as → StepsMeet next ok' s as := by
  induction as with
  | nil => exact fun _ _ => trivial
  | cons a as ih =>
    exact fun hs h => ⟨hmeets _ _ hs h.1, fun s' hs' => ih (hstep _ _ _ hs h.1 hs') (h.2 s' hs')⟩

theorem StepsMeet.and {ok' : σ → α → Prop} {as : List α} :
    ∀ {s : σ}, StepsMeet next ok s as → StepsMeet next ok' s as →
      StepsMeet next (fun s a => ok s a ∧ ok' s a) s as := by
  induction as with
  | nil => exact fun _ _ => trivial
  | cons a as ih => exact fun h h' => ⟨⟨h.1, h'.1⟩, fun s' hs' => ih (h.2 s' hs') (h'.2 s' hs')⟩

/-- **Exact side conditions.** If the allowed steps keep an invariant under which all is good, and
a step that is not allowed spoils it for good, then a run ends well exactly when all its steps are
allowed. -/
theorem good_iff_stepsMeet (Inv good : σ → Prop) (hgood : ∀ s, Inv s → good s)
    (hstep : ∀ s a s', Inv s → ok s a → next s a = some s' → Inv s')
    (hspoil : ∀ s a s', Inv s → ¬ ok s a → next s a = some s' → ¬ good s')
    (hlast : ∀ s a s', ¬ good s → next s a = some s' → ¬ good s') :
    ∀ {as : List α} {s s' : σ}, Inv s → run next s as = some s' →
      (good s' ↔ StepsMeet next ok s as) := by
  intro as
  induction as with
  | nil =>
    intro s s' hs hrun
    obtain rfl := Option.some.inj hrun
    exact iff_of_true (hgood s hs) trivial
  | cons a as ih =>
    intro s s' hs hrun
    obtain ⟨s₁, h₁, hrun⟩ := run_cons_eq_some.mp hrun
    by_cases hok : ok s a
    · rw [ih (hstep s a s₁ hs hok h₁) hrun]
      constructor
      · refine fun h => ⟨hok, fun s₂ h₂ => ?_⟩
        obtain rfl := Option.some.inj (h₁.symm.trans h₂)
        exact h
      · exact fun h => h.2 s₁ h₁
    · have hbad := invariant_of_run (fun s => ¬ good s) (fun s a s' hs h => hlast s a s' hs h)
        (hspoil s a s₁ hs hok h₁) hrun
      exact iff_of_false hbad fun h => hok h.1

/-- The same for systems that stop in bad states, when a step leads to a bad state exactly when it
is not allowed. -/
theorem not_bad_iff_stepsMeet (Inv bad : σ → Prop)
    (hstep : ∀ s a s', Inv s → next s a = some s' → Inv s')
    (hexact : ∀ s a s', Inv s → next s a = some s' → (¬ bad s' ↔ ok s a))
    (hstop : ∀ s a, bad s → next s a = none) {as : List α} {s s' : σ} (hs : Inv s)
    (hgood : ¬ bad s) (hrun : run next s as = some s') :
    ¬ bad s' ↔ StepsMeet next ok s as := by
  refine good_iff_stepsMeet (fun s => Inv s ∧ ¬ bad s) (fun s => ¬ bad s) (fun _ h => h.2)
    ?_ ?_ ?_ ⟨hs, hgood⟩ hrun
  · exact fun s a s' h hok hnext => ⟨hstep s a s' h.1 hnext, (hexact s a s' h.1 hnext).mpr hok⟩
  · exact fun s a s' h hok hnext hgood => hok ((hexact s a s' h.1 hnext).mp hgood)
  · intro s a s' hbad hnext
    rw [hstop s a (not_not.mp hbad)] at hnext
    cases hnext

/-- A run is guarded exactly when each of its steps is allowed in the state that the steps before
it lead to. -/
theorem stepsMeet_iff {s : σ} {as : List α} :
    StepsMeet next ok s as ↔
      ∀ pre a post, as = pre ++ a :: post → ∀ s₁, run next s pre = some s₁ → ok s₁ a := by
  induction as generalizing s with
  | nil => simp [StepsMeet]
  | cons b as ih =>
    rw [StepsMeet]
    constructor
    · rintro ⟨hb, hrest⟩ pre a post heq s₁ hpre
      cases pre with
      | nil =>
        obtain ⟨rfl, rfl⟩ := List.cons.inj heq
        obtain rfl := Option.some.inj hpre
        exact hb
      | cons c pre =>
        obtain ⟨rfl, rfl⟩ := List.cons.inj heq
        obtain ⟨s₂, h₂, hpre⟩ := run_cons_eq_some.mp hpre
        exact ih.mp (hrest s₂ h₂) pre a post rfl s₁ hpre
    · intro h
      refine ⟨h [] b as rfl s rfl, fun s' hs' => ih.mpr fun pre a post heq s₁ hpre => ?_⟩
      refine h (b :: pre) a post (by rw [heq, List.cons_append]) s₁ ?_
      exact run_cons_eq_some.mpr ⟨s', hs', hpre⟩

/-- Being guarded passes to a prefix of the run. -/
theorem StepsMeet.of_append {s : σ} {as bs : List α} (h : StepsMeet next ok s (as ++ bs)) :
    StepsMeet next ok s as := by
  rw [stepsMeet_iff] at h ⊢
  intro pre a post heq
  exact h pre a (post ++ bs) (by rw [heq, List.append_assoc, List.cons_append])

/-- Being guarded passes to the rest of a run. -/
theorem StepsMeet.after {s s₁ : σ} {as bs : List α} (h : StepsMeet next ok s (as ++ bs))
    (hrun : run next s as = some s₁) : StepsMeet next ok s₁ bs := by
  rw [stepsMeet_iff] at h ⊢
  intro pre a post heq s₂ hpre
  refine h (as ++ pre) a post (by rw [heq, List.append_assoc]) s₂ ?_
  rw [run_append, hrun]
  exact hpre

/-- **Exact side conditions along a run** of a system in which every step is enabled. If a step from
a good state leads to a good one exactly when it meets the condition, all states of a run are good
exactly when all its steps do. -/
theorem along_iff {step : σ → α → σ} {meets : σ → α → Prop} (Inv good : σ → Prop)
    (hstep : ∀ s a, Inv s → Inv (step s a))
    (hexact : ∀ s a, Inv s → good s → (good (step s a) ↔ meets s a)) {s : σ} (hs : Inv s)
    (hgood : good s) (as : List α) :
    (∀ pre, pre <+: as → good (pre.foldl step s)) ↔
      ∀ pre a, pre ++ [a] <+: as → meets (pre.foldl step s) a := by
  have hinv : ∀ pre : List α, Inv (pre.foldl step s) := fun pre => by
    induction pre using List.reverseRecOn with
    | nil => exact hs
    | append_singleton pre a ih =>
      rw [List.foldl_append]
      exact hstep _ a ih
  constructor
  · intro h pre a hpre
    have hafter := h (pre ++ [a]) hpre
    rw [List.foldl_append] at hafter
    exact (hexact _ a (hinv pre) (h pre ((List.prefix_append pre [a]).trans hpre))).mp hafter
  · intro h pre
    induction pre using List.reverseRecOn with
    | nil => exact fun _ => hgood
    | append_singleton pre a ih =>
      intro hpre
      rw [List.foldl_append]
      exact (hexact _ a (hinv pre) (ih ((List.prefix_append pre [a]).trans hpre))).mpr
        (h pre a hpre)

end Muhui.Transition
