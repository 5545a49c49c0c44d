/-
  Logs whose entries carry a key.

  Several parties write to one log; `entries k log` is what the log says about the party `k`, in
  order.
-/
import Mathlib.Data.List.Nodup

namespace Muhui.KeyedLog

variable {K ε : Type*} [DecidableEq K]

/-- The entries of `k`. -/
def entries (k : K) (log : List (K × ε)) : List ε :=
  log.filterMap fun e => if e.1 = k then some e.2 else none

@[simp] theorem entries_nil (k : K) : entries k ([] : List (K × ε)) = [] := rfl

theorem entries_append (k : K) (log log' : List (K × ε)) :
    entries k (log ++ log') = entries k log ++ entries k log' :=
  List.filterMap_append

theorem entries_singleton (k k' : K) (e : ε) :
    entries k [(k', e)] = if k' = k then [e] else [] := by
  by_cases h : k' = k <;> simp [entries, h]

theorem mem_entries {k : K} {e : ε} {log : List (K × ε)} : e ∈ entries k log ↔ (k, e) ∈ log := by
  simp [entries, List.mem_filterMap]

/-- When each party writes once, a party sees its own entry. -/
theorem entries_map (k : K) (f : K → ε) {ks : List K} (hks : ks.Nodup) :
    entries k (ks.map fun k' => (k', f k')) = if k ∈ ks then [f k] else [] := by
  induction ks with
  | nil => rfl
  | cons k' ks ih =>
    obtain ⟨hk', hks⟩ := List.nodup_cons.mp hks
    rw [List.map_cons, ← List.singleton_append, entries_append, entries_singleton, ih hks]
    by_cases hk : k' = k
    · subst hk
      simp [hk']
    · simp [hk, Ne.symm hk]

end Muhui.KeyedLog
