/-
  Lists of entries with distinct keys, in the order in which they were last added.
-/
import Mathlib.Data.List.Nodup

namespace Muhui

/-- Entries with distinct keys. -/
structure KeyedList (K V : Type*) where
  entries : List (K × V)
  nodup : (entries.map Prod.fst).Nodup

namespace KeyedList

variable {K V : Type*} [DecidableEq K]

def empty : KeyedList K V := ⟨[], List.nodup_nil⟩

/-- The list without the entry of `k`. -/
def erase (l : KeyedList K V) (k : K) : KeyedList K V where
  entries := l.entries.filter fun e => e.1 ≠ k
  nodup := l.nodup.sublist (List.filter_sublist.map Prod.fst)

theorem not_mem_erase (l : KeyedList K V) (k : K) : k ∉ (l.erase k).entries.map Prod.fst := by
  intro hk
  obtain ⟨e, he, rfl⟩ := List.mem_map.mp hk
  exact of_decide_eq_true (List.mem_filter.mp he).2 rfl

/-- Adds an entry at the end, in place of the one with the same key. -/
def addLast (l : KeyedList K V) (k : K) (v : V) : KeyedList K V where
  entries := (l.erase k).entries ++ [(k, v)]
  nodup := by
    rw [List.map_append, List.map_singleton, List.nodup_append_comm, List.singleton_append,
      List.nodup_cons]
    exact ⟨l.not_mem_erase k, (l.erase k).nodup⟩

/-- A loop that erases the first entry of `k` erases the only one. -/
theorem eraseP_eq_erase (l : KeyedList K V) (k : K) :
    (l.entries.eraseP fun e => e.1 = k) = (l.erase k).entries := by
  obtain ⟨es, hes⟩ := l
  show (es.eraseP fun e => e.1 = k) = es.filter fun e => e.1 ≠ k
  induction es with
  | nil => rfl
  | cons e es ih =>
    obtain ⟨he, hes⟩ := List.nodup_cons.mp hes
    by_cases hk : e.1 = k
    · -- the keys behind the first one are others
      have hfilter : es.filter (fun e => decide (e.1 ≠ k)) = es := by
        rw [List.filter_eq_self]
        intro d hd
        have hne : d.1 ≠ k := fun h => he (List.mem_map.mpr ⟨d, hd, h.trans hk.symm⟩)
        simpa using hne
      rw [List.eraseP_cons_of_pos (by simpa using hk), List.filter_cons_of_neg (by simpa using hk),
        hfilter]
    · rw [List.eraseP_cons_of_neg (by simpa using hk), List.filter_cons_of_pos (by simpa using hk),
        ih hes]

/-- Dropping the first entry is erasing `k` exactly when there is none or it is the one of `k`. -/
theorem tail_eq_erase_iff (l : KeyedList K V) (k : K) :
    l.entries.tail = (l.erase k).entries ↔ ∀ e ∈ l.entries.head?, e.1 = k := by
  obtain ⟨es, hes⟩ := l
  show es.tail = es.filter (fun e => e.1 ≠ k) ↔ _
  cases es with
  | nil => simp
  | cons e es =>
    obtain ⟨he, hes⟩ := List.nodup_cons.mp hes
    constructor
    · intro h
      by_contra hk
      have hk' : e.1 ≠ k := by simpa using hk
      have hmem : e ∈ es := by
        rw [List.tail_cons, List.filter_cons_of_pos (by simpa using hk')] at h
        rw [h]
        exact List.mem_cons_self
      exact he (List.mem_map.mpr ⟨e, hmem, rfl⟩)
    · intro h
      have hk : e.1 = k := h e rfl
      have herase := eraseP_eq_erase ⟨e :: es, List.nodup_cons.mpr ⟨he, hes⟩⟩ k
      rw [List.eraseP_cons_of_pos (by simpa using hk)] at herase
      exact herase

end KeyedList

end Muhui
