/-
  `ConfigVar::setValue` and the listeners of a configuration variable (`config.h`).

  `setValue` compares and notifies under the read lock and assigns under the write lock, so another
  call can come in between.  `ConfigVar T α` is a variable with the calls that have notified and
  not yet assigned, and the log of what the listeners were told.

  A listener is told a list of changes.  `Chained` says that each change starts where the one
  before it ended, and `last` is where they have led to: this is what `_HookIniter` of `hook.cc`
  and `_SizeIniter` of `http_parser.cc` keep, which store the new value in a variable of their own.
-/
import Mathlib.Data.Nat.Notation
import Mathlib.Logic.Function.Basic
import Muhui.Container.KeyedLog
import Muhui.Transition.Run

namespace Muhui

/-! ### Changes of a value -/

namespace Change

variable {α : Type*}

/-- Every change starts where the one before it ended, the first one at `a`. -/
def Chained : α → List (α × α) → Prop
  | _, [] => True
  | a, (old_value, new_value) :: cs => old_value = a ∧ Chained new_value cs

/-- Where the changes lead from `a`. -/
def last : α → List (α × α) → α
  | a, [] => a
  | _, (_, new_value) :: cs => last new_value cs

variable {a : α} {cs cs' : List (α × α)} {c : α × α}

@[simp] theorem last_snoc : last a (cs ++ [c]) = c.2 := by
  induction cs generalizing a with
  | nil => rfl
  | cons d cs ih => exact ih

theorem chained_append : Chained a (cs ++ cs') ↔ Chained a cs ∧ Chained (last a cs) cs' := by
  induction cs generalizing a with
  | nil => simp [Chained, last]
  | cons d cs ih =>
    rw [List.cons_append, Chained, ih, Chained, last, and_assoc]

theorem chained_snoc : Chained a (cs ++ [c]) ↔ Chained a cs ∧ c.1 = last a cs := by
  rw [chained_append]
  simp [Chained]

end Change

/-! ### The variable -/

/-- The keys of `m_cbs`, in the order of the map. -/
structure Listeners where
  keys : List ℕ
  sorted : keys.Pairwise (· < ·)

theorem Listeners.nodup (l : Listeners) : l.keys.Nodup := l.sorted.imp fun h => Nat.ne_of_lt h

/-- A configuration variable and the calls of `setValue` on it. -/
structure ConfigVar (T α : Type*) where
  /-- `m_val` -/
  val : α
  cbs : Listeners
  /-- For a thread between the two sections of `setValue`: the value it is going to assign. -/
  setting : T → Option α
  /-- The notifications: key, `old_value` and `new_value`, oldest first. -/
  log : List (ℕ × α × α)

/-- The two sections of `setValue`. -/
inductive SetValue (T α : Type*)
  /-- Under the read lock: compare, and notify when the value is another one. -/
  | notify (t : T) (v : α)
  /-- Under the write lock: `m_val = v`. -/
  | assign (t : T)

namespace ConfigVar

open Change

variable {T α : Type*}

def init (default_value : α) (cbs : Listeners) : ConfigVar T α :=
  { val := default_value, cbs := cbs, setting := fun _ => none, log := [] }

/-- What the listener `key` has been told. -/
def told (s : ConfigVar T α) (key : ℕ) : List (α × α) := KeyedLog.entries key s.log

/-- The changes a listener is told form a chain from the initial value, and when no call of
`setValue` is under way they lead to the value. -/
def Agrees (default_value : α) (s : ConfigVar T α) : Prop :=
  ∀ key ∈ s.cbs.keys, Chained default_value (s.told key) ∧
    ((∀ t, s.setting t = none) → last default_value (s.told key) = s.val)

/-- The side condition of a step: when a call of `setValue` finds another value, no other call is
between its two sections. -/
def Alone (s : ConfigVar T α) : SetValue T α → Prop
  | .notify _ v => v ≠ s.val → ∀ t, s.setting t = none
  | .assign _ => True

variable [DecidableEq T] [DecidableEq α]

def next (s : ConfigVar T α) : SetValue T α → Option (ConfigVar T α)
  | .notify t v =>
    if s.setting t ≠ none then none
    else if v = s.val then some s
    else
      some { s with
        setting := Function.update s.setting t (some v)
        log := s.log ++ s.cbs.keys.map fun key => (key, s.val, v) }
  | .assign t =>
    (s.setting t).map fun v =>
      { s with val := v, setting := Function.update s.setting t none }

variable {a : α} {s s' : ConfigVar T α}

/-- What a notification tells a listener. -/
theorem told_notify {t : T} {v : α} (hnext : s.next (.notify t v) = some s') (hv : v ≠ s.val) :
    s'.cbs = s.cbs ∧ s'.val = s.val ∧ s'.setting = Function.update s.setting t (some v) ∧
      ∀ key ∈ s.cbs.keys, s'.told key = s.told key ++ [(s.val, v)] := by
  simp only [next] at hnext
  split_ifs at hnext
  obtain rfl := Option.some.inj hnext
  refine ⟨rfl, rfl, rfl, fun key hkey => ?_⟩
  unfold told
  rw [KeyedLog.entries_append, KeyedLog.entries_map key (fun _ => (s.val, v)) s.cbs.nodup,
    if_pos hkey]

theorem assign_next {t : T} (hnext : s.next (.assign t) = some s') :
    ∃ v, s.setting t = some v ∧
      s' = { s with val := v, setting := Function.update s.setting t none } := by
  obtain ⟨v, hv, rfl⟩ := Option.map_eq_some_iff.mp hnext
  exact ⟨v, hv, rfl⟩

theorem notify_same {t : T} (hnext : s.next (.notify t s.val) = some s') : s' = s := by
  simp only [next] at hnext
  split_ifs at hnext
  exact (Option.some.inj hnext).symm

/-- Listeners are never forgotten and never untold. -/
theorem told_next {b : SetValue T α} (hnext : s.next b = some s') :
    s'.cbs = s.cbs ∧ ∀ key ∈ s.cbs.keys, ∃ cs, s'.told key = s.told key ++ cs := by
  cases b with
  | notify t v =>
    by_cases hv : v = s.val
    · subst hv
      rw [notify_same hnext]
      exact ⟨rfl, fun key _ => ⟨[], by rw [List.append_nil]⟩⟩
    · obtain ⟨hcbs, -, -, htold⟩ := told_notify hnext hv
      exact ⟨hcbs, fun key hkey => ⟨_, htold key hkey⟩⟩
  | assign t =>
    obtain ⟨v, -, rfl⟩ := assign_next hnext
    exact ⟨rfl, fun key _ => ⟨[], by rw [List.append_nil]; rfl⟩⟩

/-! ### Calls one at a time -/

omit [DecidableEq α] in
/-- When the only call under way has assigned, none is under way. -/
theorem update_none {setting : T → Option α} {t : T} (h : ∀ t', t' ≠ t → setting t' = none)
    (t' : T) : Function.update setting t none t' = none := by
  by_cases heq : t' = t
  · rw [heq, Function.update_self]
  · rw [Function.update_of_ne heq, h t' heq]

/-- At most one call is under way, and every listener has been told what it is going to assign; with
no call under way every listener has been told the value. -/
structure Inv (a : α) (s : ConfigVar T α) : Prop where
  chained : ∀ key ∈ s.cbs.keys, Chained a (s.told key)
  quiet : (∀ t, s.setting t = none) → ∀ key ∈ s.cbs.keys, last a (s.told key) = s.val
  setting : ∀ t v, s.setting t = some v → (∀ t', t' ≠ t → s.setting t' = none) ∧ v ≠ s.val ∧
    ∀ key ∈ s.cbs.keys, last a (s.told key) = v

omit [DecidableEq T] [DecidableEq α] in
theorem inv_init (a : α) (cbs : Listeners) : Inv a (init a cbs : ConfigVar T α) where
  chained _ _ := trivial
  quiet _ _ _ := rfl
  setting _ _ hsetting := by cases hsetting

omit [DecidableEq T] [DecidableEq α] in
theorem Inv.agrees (h : s.Inv a) : Agrees a s :=
  fun key hkey => ⟨h.chained key hkey, fun hquiet => h.quiet hquiet key hkey⟩

/-- **Step lemma.** A call that waits for the one under way keeps the listeners and the value in
step. -/
theorem Inv.next (h : s.Inv a) {b : SetValue T α} (halone : s.Alone b)
    (hnext : s.next b = some s') : s'.Inv a := by
  cases b with
  | notify t v =>
    by_cases hv : v = s.val
    · subst hv
      rw [notify_same hnext]
      exact h
    obtain ⟨hcbs, hval, hsetting, htold⟩ := told_notify hnext hv
    have hquiet := halone hv
    constructor
    case chained =>
      intro key hkey
      rw [hcbs] at hkey
      rw [htold key hkey, chained_snoc]
      exact ⟨h.chained key hkey, (h.quiet hquiet key hkey).symm⟩
    case quiet =>
      intro hquiet'
      have ht := hquiet' t
      rw [hsetting, Function.update_self] at ht
      cases ht
    case setting =>
      intro t' v' ht'
      rw [hsetting] at ht' ⊢
      by_cases heq : t' = t
      · subst heq
        rw [Function.update_self] at ht'
        obtain rfl := Option.some.inj ht'
        refine ⟨fun t'' hne => ?_, by rwa [hval], fun key hkey => ?_⟩
        · rw [Function.update_of_ne hne]
          exact hquiet t''
        · rw [hcbs] at hkey
          rw [htold key hkey, last_snoc]
      · rw [Function.update_of_ne heq, hquiet t'] at ht'
        cases ht'
  | assign t =>
    obtain ⟨v, ht, rfl⟩ := assign_next hnext
    obtain ⟨hothers, -, hlast⟩ := h.setting t v ht
    refine ⟨h.chained, fun _ => hlast, fun t' v' ht' => ?_⟩
    have ht' : Function.update s.setting t none t' = some v' := ht'
    rw [update_none hothers t'] at ht'
    cases ht'

/-- A call that overtakes another one tells every listener a change that starts elsewhere. -/
theorem Inv.not_chained (h : s.Inv a) {b : SetValue T α} (halone : ¬s.Alone b)
    (hnext : s.next b = some s') {key : ℕ} (hkey : key ∈ s.cbs.keys) :
    ¬Chained a (s'.told key) := by
  cases b with
  | assign t => exact absurd trivial halone
  | notify t v =>
    obtain ⟨hv, t', ht'⟩ : v ≠ s.val ∧ ∃ t', s.setting t' ≠ none := by
      simpa [Alone] using halone
    obtain ⟨w, hw⟩ := Option.ne_none_iff_exists'.mp ht'
    obtain ⟨-, hne, hlast⟩ := h.setting t' w hw
    rw [(told_notify hnext hv).2.2.2 key hkey, chained_snoc, hlast key hkey]
    rintro ⟨-, heq⟩
    exact hne heq.symm

/-- With a listener, a run keeps the chains exactly when no call overtakes another one. -/
theorem chained_iff {cbs : Listeners} {bs : List (SetValue T α)} (hkeys : cbs.keys ≠ [])
    (hrun : Transition.run next (init a cbs) bs = some s) :
    (∀ key ∈ s.cbs.keys, Chained a (s.told key)) ↔
      Transition.StepsMeet next Alone (init a cbs) bs := by
  refine Transition.good_iff_stepsMeet (fun s => s.Inv a ∧ s.cbs.keys ≠ [])
    (fun s => ∀ key ∈ s.cbs.keys, Chained a (s.told key)) (fun _ h => h.1.chained) ?_ ?_ ?_
    ⟨inv_init a cbs, hkeys⟩ hrun
  · exact fun s b s' h halone hnext =>
      ⟨h.1.next halone hnext, by rw [(told_next hnext).1]; exact h.2⟩
  · intro s b s' h halone hnext hgood
    obtain ⟨key, hkey⟩ := List.exists_mem_of_ne_nil _ h.2
    refine h.1.not_chained halone hnext hkey (hgood key ?_)
    rw [(told_next hnext).1]
    exact hkey
  · -- what has been told stays told
    intro s b s' hbad hnext hgood
    obtain ⟨hcbs, htold⟩ := told_next hnext
    refine hbad fun key hkey => ?_
    obtain ⟨cs, hcs⟩ := htold key hkey
    have hchained := hgood key (by rwa [hcbs])
    rw [hcs] at hchained
    exact (chained_append.mp hchained).1

/-- **Listeners and value agree** in exactly those runs in which no call of `setValue` with another
value starts while one is between its two sections (or nobody listens). -/
theorem agrees_iff {cbs : Listeners} {bs : List (SetValue T α)}
    (hrun : Transition.run next (init a cbs) bs = some s) :
    Agrees a s ↔ cbs.keys = [] ∨ Transition.StepsMeet next Alone (init a cbs) bs := by
  have hcbs : s.cbs = cbs :=
    Transition.invariant_of_run (fun s : ConfigVar T α => s.cbs = cbs)
      (fun _ _ _ h hnext => (told_next hnext).1.trans h) rfl hrun
  by_cases hkeys : cbs.keys = []
  · refine iff_of_true (fun key hkey => ?_) (Or.inl hkeys)
    rw [hcbs, hkeys] at hkey
    cases hkey
  · rw [or_iff_right hkeys]
    constructor
    · exact fun h => (chained_iff hkeys hrun).mp fun key hkey => (h key hkey).1
    · intro h
      have hinv : s.Inv a := Transition.invariant_of_stepsMeet (Inv a)
        (fun _ _ _ h halone hnext => h.next halone hnext) (inv_init a cbs) h hrun
      exact hinv.agrees

/-- Two calls notify in one order and assign in the other. -/
theorem not_agrees_overtaken :
    ∃ s : ConfigVar ℕ ℕ,
      Transition.run next (init 0 ⟨[1], by decide⟩)
        [.notify 1 10, .notify 2 20, .assign 2, .assign 1] = some s ∧
      (∀ t, s.setting t = none) ∧ s.told 1 = [(0, 10), (0, 20)] ∧ s.val = 10 ∧
      ¬Agrees 0 s := by
  refine ⟨_, rfl, fun t => ?_, rfl, rfl, fun h => ?_⟩
  · refine update_none (fun t h1 => ?_) t
    show Function.update (Function.update (Function.update (fun _ => none) 1 (some 10)) 2 (some 20))
      2 none t = (none : Option ℕ)
    by_cases h2 : t = 2
    · rw [h2, Function.update_self]
    · rw [Function.update_of_ne h2, Function.update_of_ne h2, Function.update_of_ne h1]
  · have hchained : Chained 0 [(0, 10), (0, 20)] := (h 1 (by decide)).1
    exact absurd hchained.2.1 (by decide)

/-- Two calls one after the other. -/
theorem agrees_inTurn :
    ∃ s : ConfigVar ℕ ℕ,
      Transition.run next (init 0 ⟨[1], by decide⟩)
        [.notify 1 10, .assign 1, .notify 2 20, .assign 2] = some s ∧
      s.told 1 = [(0, 10), (10, 20)] ∧ Agrees 0 s := by
  refine ⟨_, rfl, rfl, (@agrees_iff ℕ ℕ _ _ 0 _ ⟨[1], by decide⟩
    [.notify 1 10, .assign 1, .notify 2 20, .assign 2] rfl).mpr (Or.inr ?_)⟩
  refine .cons rfl (fun _ t => rfl) (.cons rfl trivial
    (.cons rfl (fun _ => update_none fun t ht => ?_) (.cons rfl trivial trivial)))
  exact Function.update_of_ne ht _ _

end ConfigVar

end Muhui
