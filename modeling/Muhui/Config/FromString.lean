/-
  `ConfigVar::fromString` (`config.h`), with exceptions.

  The conversion may throw, and so may every listener that `setValue` calls.  `fromString` catches
  the exceptions that are a `std::exception` and lets the others through.  Its `try` block has no
  `return true`, so it returns `false` whenever it returns (`result_fromString_ne_true`).

  One thread is alone here; how calls of `setValue` overlap is the subject of `ConfigVar.next`,
  which a call without exceptions is two steps of (`setValue_eq_run`).
-/
import Muhui.Config.Listener

namespace Muhui.FromString

/-- An exception: a `std::exception`, or one of another type. -/
inductive Thrown
  | std
  | other
  deriving DecidableEq

/-- A configuration variable, with what its listeners do when they are told of a change. -/
structure Var (α : Type) where
  m_val : α
  m_cbs : Listeners
  cb : ℕ → α → α → Option Thrown

/-- What a call comes to: what it returns or throws, the value after it, and the listeners that it
has told of a change, with the old and the new value. -/
structure Outcome (ρ α : Type) where
  result : Except Thrown ρ
  m_val : α
  told : List (ℕ × α × α)

variable {α : Type}

/-- The loop over the listeners, which the first exception leaves. -/
def notify (cb : ℕ → α → α → Option Thrown) (old_value new_value : α) :
    List ℕ → Except Thrown Unit × List (ℕ × α × α)
  | [] => (.ok (), [])
  | i :: rest =>
    match cb i old_value new_value with
    | some e => (.error e, [(i, old_value, new_value)])
    | none =>
      let (result, told) := notify cb old_value new_value rest
      (result, (i, old_value, new_value) :: told)

variable [DecidableEq α]

/-- `ConfigVar::setValue` -/
def setValue (var : Var α) (v : α) : Outcome Unit α :=
  if v = var.m_val then { result := .ok (), m_val := var.m_val, told := [] }
  else
    match notify var.cb var.m_val v var.m_cbs.keys with
    | (.error e, told) => { result := .error e, m_val := var.m_val, told := told }
    | (.ok (), told) => { result := .ok (), m_val := v, told := told }

/-- `ConfigVar::fromString` -/
def fromString (FromStr : List Char → Except Thrown α) (var : Var α) (val : List Char) :
    Outcome Bool α :=
  match FromStr val with
  | .error .std => { result := .ok false, m_val := var.m_val, told := [] }
  | .error .other => { result := .error .other, m_val := var.m_val, told := [] }
  | .ok v =>
    let set := setValue var v
    match set.result with
    | .ok () => { result := .ok false, m_val := set.m_val, told := set.told }
    | .error .std => { result := .ok false, m_val := set.m_val, told := set.told }
    | .error .other => { result := .error .other, m_val := set.m_val, told := set.told }

/-! ### What it promises -/

/-- A listener throws when it is told that the value becomes `v`. -/
def ListenerThrows (var : Var α) (v : α) : Prop :=
  v ≠ var.m_val ∧ ∃ i ∈ var.m_cbs.keys, var.cb i var.m_val v ≠ none

/-- `true` says that the value is the converted one; after an exception the result is `false`, the
value is as before, and no listener has been told of another one. -/
def Atomic (FromStr : List Char → Except Thrown α) (var : Var α) (val : List Char) : Prop :=
  ((fromString FromStr var val).result = .ok true ↔
      ∃ v, FromStr val = .ok v ∧ (fromString FromStr var val).m_val = v) ∧
    ((∃ e, FromStr val = .error e) ∨ (∃ v, FromStr val = .ok v ∧ ListenerThrows var v) →
      (fromString FromStr var val).result = .ok false ∧
        (fromString FromStr var val).m_val = var.m_val ∧
        ∀ c ∈ (fromString FromStr var val).told, c.2.2 = (fromString FromStr var val).m_val)

variable {FromStr : List Char → Except Thrown α} {var : Var α} {val : List Char} {v : α}

section Notify

variable {cb : ℕ → α → α → Option Thrown} {old_value new_value : α} {keys : List ℕ}

omit [DecidableEq α]

/-- Without an exception all listeners are told. -/
theorem notify_of_none (h : ∀ i ∈ keys, cb i old_value new_value = none) :
    notify cb old_value new_value keys =
      (.ok (), keys.map fun i => (i, old_value, new_value)) := by
  induction keys with
  | nil => rfl
  | cons i keys ih =>
    rw [List.forall_mem_cons] at h
    rw [notify, h.1, ih h.2]
    rfl

/-- With one, those up to the first that throws. -/
theorem notify_of_throws (h : ∃ i ∈ keys, cb i old_value new_value ≠ none) :
    ∃ e told, notify cb old_value new_value keys = (.error e, told) ∧ told ≠ [] ∧
      ∀ c ∈ told, c.2.2 = new_value := by
  induction keys with
  | nil =>
    obtain ⟨_, hmem, _⟩ := h
    cases hmem
  | cons i keys ih =>
    rw [notify]
    cases hcb : cb i old_value new_value with
    | some e =>
      refine ⟨e, _, rfl, List.cons_ne_nil _ _, fun c hc => ?_⟩
      rw [List.mem_singleton.mp hc]
    | none =>
      have hrest : ∃ i ∈ keys, cb i old_value new_value ≠ none := by
        obtain ⟨j, hj, hthrows⟩ := h
        rcases List.mem_cons.mp hj with rfl | hj
        · exact absurd hcb hthrows
        · exact ⟨j, hj, hthrows⟩
      obtain ⟨e, told, hnotify, -, htold⟩ := ih hrest
      refine ⟨e, _, by rw [hnotify], List.cons_ne_nil _ _, fun c hc => ?_⟩
      rcases List.mem_cons.mp hc with rfl | hc
      · rfl
      · exact htold c hc

end Notify

/-! ### `setValue` -/

theorem setValue_of_eq (h : v = var.m_val) :
    setValue var v = { result := .ok (), m_val := v, told := [] } := by
  rw [setValue, if_pos h, h]

theorem setValue_of_none (hne : v ≠ var.m_val)
    (h : ∀ i ∈ var.m_cbs.keys, var.cb i var.m_val v = none) :
    setValue var v =
      { result := .ok (), m_val := v, told := var.m_cbs.keys.map fun i => (i, var.m_val, v) } := by
  rw [setValue, if_neg hne, notify_of_none h]

/-- A listener that throws keeps the value from being set, after it has been told of it. -/
theorem setValue_of_throws (h : ListenerThrows var v) :
    ∃ e told, setValue var v = { result := .error e, m_val := var.m_val, told := told } ∧
      told ≠ [] ∧ ∀ c ∈ told, c.2.2 = v := by
  obtain ⟨e, told, hnotify, hne, htold⟩ := notify_of_throws h.2
  refine ⟨e, told, ?_, hne, htold⟩
  rw [setValue, if_neg h.1, hnotify]

/-- No exception comes out of `setValue` exactly when no listener throws, and then the value is
set. -/
theorem m_val_setValue (h : ¬ ListenerThrows var v) :
    (setValue var v).result = .ok () ∧ (setValue var v).m_val = v := by
  by_cases heq : v = var.m_val
  · rw [setValue_of_eq heq]
    exact ⟨rfl, rfl⟩
  · rw [setValue_of_none heq fun i hi => not_not.mp fun hthrows => h ⟨heq, i, hi, hthrows⟩]
    exact ⟨rfl, rfl⟩

/-- Without exceptions `setValue` is a notification and an assignment of `ConfigVar.next`. -/
theorem setValue_eq_run (hne : v ≠ var.m_val)
    (h : ∀ i ∈ var.m_cbs.keys, var.cb i var.m_val v = none) :
    Transition.run ConfigVar.next (ConfigVar.init var.m_val var.m_cbs : ConfigVar Unit α)
        [.notify () v, .assign ()] =
      some
        { val := (setValue var v).m_val
          cbs := var.m_cbs
          setting := fun _ => none
          log := (setValue var v).told } := by
  rw [setValue_of_none hne h]
  have hnotify : ConfigVar.next (ConfigVar.init var.m_val var.m_cbs : ConfigVar Unit α)
      (.notify () v) =
        some
          { val := var.m_val
            cbs := var.m_cbs
            setting := Function.update (fun _ => none) () (some v)
            log := var.m_cbs.keys.map fun i => (i, var.m_val, v) } := by
    unfold ConfigVar.next ConfigVar.init
    dsimp only
    rw [if_neg (not_not.mpr rfl), if_neg hne, List.nil_append]
  rw [Transition.run, hnotify, Option.bind_some, Transition.run]
  unfold ConfigVar.next
  dsimp only
  rw [Function.update_self, Option.map_some, Option.bind_some, Transition.run,
    Function.update_idem, Function.update_eq_self]

/-! ### `fromString` -/

/-- It never reports success. -/
theorem result_fromString_ne_true (FromStr : List Char → Except Thrown α) (var : Var α)
    (val : List Char) : (fromString FromStr var val).result ≠ .ok true := by
  unfold fromString
  cases FromStr val with
  | error e => cases e <;> nofun
  | ok v =>
    dsimp only
    cases (setValue var v).result with
    | ok u => nofun
    | error e => cases e <;> nofun

theorem m_val_fromString (var : Var α) (h : FromStr val = .ok v) :
    (fromString FromStr var val).m_val = (setValue var v).m_val ∧
      (fromString FromStr var val).told = (setValue var v).told := by
  unfold fromString
  rw [h]
  dsimp only
  cases (setValue var v).result with
  | ok u => exact ⟨rfl, rfl⟩
  | error e => cases e <;> exact ⟨rfl, rfl⟩

/-- It does what it promises only where the conversion fails with a `std::exception`: after a
conversion that succeeds it does not say so, or leaves a listener told of a value that is not
set. -/
theorem atomic_iff (FromStr : List Char → Except Thrown α) (var : Var α) (val : List Char) :
    Atomic FromStr var val ↔ FromStr val = .error .std := by
  constructor
  · rintro ⟨hreport, hfail⟩
    cases hconv : FromStr val with
    | error e =>
      cases e with
      | std => rfl
      | other =>
        have hresult := (hfail (.inl ⟨.other, hconv⟩)).1
        unfold fromString at hresult
        rw [hconv] at hresult
        cases hresult
    | ok v =>
      exfalso
      obtain ⟨hval, htold⟩ := m_val_fromString var hconv
      by_cases hthrows : ListenerThrows var v
      · obtain ⟨e, told, hset, hne, hall⟩ := setValue_of_throws hthrows
        obtain ⟨-, -, hkept⟩ := hfail (.inr ⟨v, hconv, hthrows⟩)
        rw [htold, hval, hset] at hkept
        obtain ⟨c, hc⟩ := List.exists_mem_of_ne_nil told hne
        exact hthrows.1 ((hall c hc).symm.trans (hkept c hc))
      · refine result_fromString_ne_true FromStr var val (hreport.mpr ⟨v, hconv, ?_⟩)
        rw [hval, (m_val_setValue hthrows).2]
  · intro hconv
    have hout : fromString FromStr var val =
        { result := .ok false, m_val := var.m_val, told := [] } := by
      unfold fromString
      rw [hconv]
    unfold Atomic
    rw [hout]
    refine ⟨⟨nofun, ?_⟩, fun _ => ⟨rfl, rfl, nofun⟩⟩
    rintro ⟨v, hv, -⟩
    cases hconv.symm.trans hv

/-- A value is set, and `false` says that it is not. -/
theorem not_atomic_of_set :
    let FromStr (val : List Char) : Except Thrown ℕ :=
      if val = "8080".toList then .ok 8080 else .error .std
    let var : Var ℕ := { m_val := 0, m_cbs := ⟨[], .nil⟩, cb := fun _ _ _ => none }
    (fromString FromStr var "8080".toList).result = .ok false ∧
      (fromString FromStr var "8080".toList).m_val = 8080 ∧
      ¬ Atomic FromStr var "8080".toList := by
  refine ⟨rfl, rfl, fun h => ?_⟩
  exact result_fromString_ne_true _ _ _ (h.1.mpr ⟨8080, rfl, rfl⟩)

end Muhui.FromString
