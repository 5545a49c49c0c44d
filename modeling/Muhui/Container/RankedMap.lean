/-
  An ordered map whose keys are compared through a rank.

  The entries stand in increasing order of the rank of their keys, so two keys of the same rank are
  the same key for the map.  As in a standard ordered map, assigning through a key that is already
  there overwrites the value and keeps the spelling of the key that was inserted first.
-/
import Mathlib.Order.Lattice
import Mathlib.Order.Lex
import Mathlib.Data.List.Lex
import Mathlib.Data.List.Basic

namespace Muhui

/-- Entries in increasing order of the rank of their keys. -/
structure RankedMap {K L : Type} [LinearOrder L] (rank : K → L) (V : Type) where
  entries : List (K × V)
  sorted : entries.Pairwise fun a b => rank a.1 < rank b.1

namespace RankedMap

variable {K L V : Type} [LinearOrder L] {rank : K → L}

instance [DecidableEq K] [DecidableEq V] : DecidableEq (RankedMap rank V) := fun m m' =>
  decidable_of_iff (m.entries = m'.entries) ⟨fun h => by cases m; cases m'; congr, fun h => h ▸ rfl⟩

/-- The map without entries. -/
def empty : RankedMap rank V := ⟨[], .nil⟩

/-- The entry of a key, with the key as it was inserted. -/
def find (m : RankedMap rank V) (k : K) : Option (K × V) :=
  m.entries.find? fun e => decide (rank e.1 = rank k)

/-- Assigns `v` to `k` in a list of entries. -/
def assign (rank : K → L) (k : K) (v : V) : List (K × V) → List (K × V)
  | [] => [(k, v)]
  | e :: es =>
    if rank k < rank e.1 then (k, v) :: e :: es
    else if rank e.1 < rank k then e :: assign rank k v es
    else (e.1, v) :: es

theorem rank_of_mem_assign {k : K} {v : V} {es : List (K × V)} {e : K × V}
    (he : e ∈ assign rank k v es) : rank e.1 = rank k ∨ ∃ e' ∈ es, rank e.1 = rank e'.1 := by
  induction es with
  | nil =>
    rw [assign, List.mem_singleton] at he
    exact .inl (he ▸ rfl)
  | cons d es ih =>
    rw [assign] at he
    split_ifs at he with hlt hgt
    · rcases List.mem_cons.mp he with rfl | he
      · exact .inl rfl
      · exact .inr ⟨e, he, rfl⟩
    · rcases List.mem_cons.mp he with rfl | he
      · exact .inr ⟨e, List.mem_cons_self, rfl⟩
      · rcases ih he with h | ⟨e', he', h⟩
        · exact .inl h
        · exact .inr ⟨e', List.mem_cons_of_mem _ he', h⟩
    · rcases List.mem_cons.mp he with rfl | he
      · exact .inr ⟨d, List.mem_cons_self, rfl⟩
      · exact .inr ⟨e, List.mem_cons_of_mem _ he, rfl⟩

theorem sorted_assign {k : K} {v : V} {es : List (K × V)}
    (h : es.Pairwise fun a b => rank a.1 < rank b.1) :
    (assign rank k v es).Pairwise fun a b => rank a.1 < rank b.1 := by
  induction es with
  | nil => exact List.pairwise_singleton _ _
  | cons d es ih =>
    obtain ⟨hd, hes⟩ := List.pairwise_cons.mp h
    rw [assign]
    split_ifs with hlt hgt
    · refine List.pairwise_cons.mpr ⟨fun e he => ?_, h⟩
      rcases List.mem_cons.mp he with rfl | he
      · exact hlt
      · exact hlt.trans (hd e he)
    · refine List.pairwise_cons.mpr ⟨fun e he => ?_, ih hes⟩
      rcases rank_of_mem_assign he with h | ⟨e', he', h⟩
      · rw [h]
        exact hgt
      · rw [h]
        exact hd e' he'
    · exact List.pairwise_cons.mpr ⟨hd, hes⟩

/-- What holds of all keys and of all values holds of them behind an assignment. -/
theorem forall_assign {P : K → Prop} {Q : V → Prop} {k : K} {v : V} {es : List (K × V)} (hk : P k)
    (hv : Q v) (h : ∀ e ∈ es, P e.1 ∧ Q e.2) : ∀ e ∈ assign rank k v es, P e.1 ∧ Q e.2 := by
  induction es with
  | nil =>
    rw [assign, List.forall_mem_singleton]
    exact ⟨hk, hv⟩
  | cons d es ih =>
    obtain ⟨hd, hes⟩ := List.forall_mem_cons.mp h
    rw [assign]
    split_ifs
    · exact List.forall_mem_cons.mpr ⟨⟨hk, hv⟩, h⟩
    · exact List.forall_mem_cons.mpr ⟨hd, ih hes⟩
    · exact List.forall_mem_cons.mpr ⟨⟨hd.1, hv⟩, hes⟩

/-- Assigns `v` to `k`. -/
def insert (m : RankedMap rank V) (k : K) (v : V) : RankedMap rank V :=
  ⟨assign rank k v m.entries, sorted_assign m.sorted⟩

@[simp] theorem find_empty (k : K) : (empty : RankedMap rank V).find k = none := rfl

theorem find?_assign {k k' : K} {v : V} {es : List (K × V)}
    (h : es.Pairwise fun a b => rank a.1 < rank b.1) :
    ((assign rank k v es).find? fun e => decide (rank e.1 = rank k')) =
      if rank k = rank k' then
        some ((((es.find? fun e => decide (rank e.1 = rank k)).map Prod.fst).getD k), v)
      else es.find? fun e => decide (rank e.1 = rank k') := by
  induction es with
  | nil => by_cases hk : rank k = rank k' <;> simp [assign, hk]
  | cons d es ih =>
    obtain ⟨hd, hes⟩ := List.pairwise_cons.mp h
    rcases lt_trichotomy (rank k) (rank d.1) with hlt | heq | hgt
    · -- the new entry stands in front of larger ones, so the key was not there
      have hnone : (d :: es).find? (fun e => decide (rank e.1 = rank k)) = none := by
        rw [List.find?_eq_none]
        intro e he
        have hke : rank k < rank e.1 := by
          rcases List.mem_cons.mp he with rfl | he
          · exact hlt
          · exact hlt.trans (hd e he)
        simpa using hke.ne'
      rw [assign, if_pos hlt, hnone]
      by_cases hk : rank k = rank k'
      · rw [if_pos hk, List.find?_cons_of_pos (by simpa using hk)]
        rfl
      · rw [if_neg hk, List.find?_cons_of_neg (by simpa using hk)]
    · have hfind : (d :: es).find? (fun e => decide (rank e.1 = rank k)) = some d :=
        List.find?_cons_of_pos (by simpa using heq.symm)
      rw [assign, if_neg (by rw [heq]; exact lt_irrefl _), if_neg (by rw [heq]; exact lt_irrefl _),
        hfind]
      by_cases hk : rank k = rank k'
      · rw [if_pos hk, List.find?_cons_of_pos (by simpa using heq.symm.trans hk)]
        rfl
      · have hdk : ¬rank d.1 = rank k' := fun h => hk (heq.trans h)
        rw [if_neg hk, List.find?_cons_of_neg (by simpa using hdk),
          List.find?_cons_of_neg (by simpa using hdk)]
    · have hfind : (d :: es).find? (fun e => decide (rank e.1 = rank k)) =
          es.find? (fun e => decide (rank e.1 = rank k)) :=
        List.find?_cons_of_neg (by simpa using hgt.ne)
      rw [assign, if_neg hgt.not_gt, if_pos hgt, hfind]
      by_cases hdk : rank d.1 = rank k'
      · have hk : ¬rank k = rank k' := fun h => hgt.ne (hdk.trans h.symm)
        rw [List.find?_cons_of_pos (by simpa using hdk), if_neg hk,
          List.find?_cons_of_pos (by simpa using hdk)]
      · have hfind' : (d :: es).find? (fun e => decide (rank e.1 = rank k')) =
            es.find? (fun e => decide (rank e.1 = rank k')) :=
          List.find?_cons_of_neg (by simpa using hdk)
        rw [List.find?_cons_of_neg (by simpa using hdk), ih hes, hfind']

/-- What a lookup sees of an assignment. -/
theorem find_insert (m : RankedMap rank V) (k k' : K) (v : V) :
    (m.insert k v).find k' =
      if rank k = rank k' then some (((m.find k).map Prod.fst).getD k, v) else m.find k' :=
  find?_assign m.sorted

theorem find_eq_some_of_mem {m : RankedMap rank V} {e : K × V} (he : e ∈ m.entries) :
    m.find e.1 = some e := by
  obtain ⟨es, hes⟩ := m
  show es.find? _ = _
  induction es with
  | nil => exact absurd he List.not_mem_nil
  | cons d es ih =>
    obtain ⟨hd, hes'⟩ := List.pairwise_cons.mp hes
    rcases List.mem_cons.mp he with rfl | he
    · rw [List.find?_cons_of_pos (by simp)]
    · rw [List.find?_cons_of_neg (by simpa using (hd e he).ne)]
      exact ih hes' he

theorem mem_of_find {m : RankedMap rank V} {k : K} {e : K × V} (h : m.find k = some e) :
    e ∈ m.entries :=
  List.mem_of_find?_eq_some h

theorem rank_of_find {m : RankedMap rank V} {k : K} {e : K × V} (h : m.find k = some e) :
    rank e.1 = rank k := by
  simpa using List.find?_some h

/-- Removes the entry of `k`, if there is one. -/
def erase (m : RankedMap rank V) (k : K) : RankedMap rank V :=
  ⟨m.entries.filter fun e => decide (rank e.1 ≠ rank k), m.sorted.filter _⟩

/-- What a lookup sees of a removal. -/
theorem find_erase (m : RankedMap rank V) (k k' : K) :
    (m.erase k).find k' = if rank k = rank k' then none else m.find k' := by
  unfold find erase
  rw [List.find?_filter]
  split_ifs with hk
  · rw [List.find?_eq_none]
    intro e _
    simp [hk]
  · refine congrArg (fun p => m.entries.find? p) (funext fun e => ?_)
    by_cases he : rank e.1 = rank k'
    · simp [he, Ne.symm hk]
    · simp [he]

/-- Two maps with the same lookups are equal. -/
theorem ext_find {m m' : RankedMap rank V} (h : ∀ k, m.find k = m'.find k) : m = m' := by
  have hentries : m.entries = m'.entries := by
    refine List.Perm.eq_of_pairwise (fun a b _ _ (hab : rank a.1 < rank b.1) hba =>
      absurd hba hab.asymm) m.sorted m'.sorted ?_
    rw [List.perm_ext_iff_of_nodup (m.sorted.imp fun hab heq => (heq ▸ hab).false)
      (m'.sorted.imp fun hab heq => (heq ▸ hab).false)]
    intro e
    exact ⟨fun he => mem_of_find (h e.1 ▸ find_eq_some_of_mem he),
      fun he => mem_of_find (h e.1 ▸ find_eq_some_of_mem he)⟩
  cases m
  cases m'
  congr

/-- Assigns the entries of a list one after another. -/
def insertAll (m : RankedMap rank V) (es : List (K × V)) : RankedMap rank V :=
  es.foldl (fun m e => m.insert e.1 e.2) m

/-- Assigning all entries of a map to a map that knows none of the keys looks them up first. -/
theorem find_insertAll {m : RankedMap rank V} {es : List (K × V)}
    (hes : es.Pairwise fun a b => rank a.1 < rank b.1) (hm : ∀ e ∈ es, m.find e.1 = none) (k : K) :
    (m.insertAll es).find k =
      ((es.find? fun e => decide (rank e.1 = rank k)).or (m.find k)) := by
  induction es generalizing m with
  | nil => rfl
  | cons d es ih =>
    obtain ⟨hd, hes'⟩ := List.pairwise_cons.mp hes
    have hmd : m.find d.1 = none := hm d List.mem_cons_self
    show ((m.insert d.1 d.2).insertAll es).find k = _
    rw [ih hes' fun e he => ?_, find_insert, hmd]
    · by_cases hk : rank d.1 = rank k
      · rw [if_pos hk, List.find?_cons_of_pos (by simpa using hk)]
        have hnone : es.find? (fun e => decide (rank e.1 = rank k)) = none := by
          rw [List.find?_eq_none]
          intro e he
          simpa [← hk] using (hd e he).ne'
        rw [hnone]
        rfl
      · rw [if_neg hk, List.find?_cons_of_neg (by simpa using hk)]
    · rw [find_insert, if_neg (hd e he).ne]
      exact hm e (List.mem_cons_of_mem _ he)

/-- Keys of another rank do not matter. -/
theorem find_insertAll_of_ne {m : RankedMap rank V} {es : List (K × V)} {k : K}
    (h : ∀ e ∈ es, rank e.1 ≠ rank k) : (m.insertAll es).find k = m.find k := by
  induction es generalizing m with
  | nil => rfl
  | cons d es ih =>
    show ((m.insert d.1 d.2).insertAll es).find k = _
    rw [ih fun e he => h e (List.mem_cons_of_mem _ he), find_insert,
      if_neg (h d List.mem_cons_self)]

theorem insertAll_append {m : RankedMap rank V} {es es' : List (K × V)} :
    m.insertAll (es ++ es') = (m.insertAll es).insertAll es' :=
  List.foldl_append ..

/-- A map is what its entries make of the empty map. -/
theorem insertAll_empty (m : RankedMap rank V) : empty.insertAll m.entries = m := by
  apply ext_find
  intro k
  rw [find_insertAll m.sorted fun e _ => find_empty e.1, find_empty, Option.or_none]
  rfl

theorem find_eq_none {m : RankedMap rank V} {k : K} (h : ∀ e ∈ m.entries, rank e.1 ≠ rank k) :
    m.find k = none := by
  cases hfind : m.find k with
  | none => rfl
  | some e => exact absurd (rank_of_find hfind) (h e (mem_of_find hfind))

theorem find_congr {m : RankedMap rank V} {k k' : K} (h : rank k = rank k') :
    m.find k = m.find k' := by
  unfold find
  rw [h]

/-- A key that the map does not know can be assigned in front of its entries. -/
theorem insertAll_entries {m : RankedMap rank V} {k : K} {v : V}
    (h : ∀ e ∈ m.entries, rank e.1 ≠ rank k) :
    (empty.insert k v).insertAll m.entries = m.insert k v := by
  have hnone : m.find k = none := find_eq_none h
  apply ext_find
  intro k'
  rw [find_insertAll m.sorted fun e he => ?_, find_insert, find_insert, find_empty, hnone]
  · show (m.find k').or _ = _
    by_cases hk : rank k = rank k'
    · rw [if_pos hk, if_pos hk, ← find_congr hk, hnone]
      rfl
    · rw [if_neg hk, if_neg hk, find_empty, Option.or_none]
  · rw [find_insert, if_neg (h e he).symm, find_empty]

/-- Assigning to a key that two maps do not know does not hide how they differ. -/
theorem insert_inj {m m' : RankedMap rank V} {k : K} {v : V} (h : m.find k = none)
    (h' : m'.find k = none) : m.insert k v = m'.insert k v ↔ m = m' := by
  refine ⟨fun heq => ext_find fun k' => ?_, fun heq => heq ▸ rfl⟩
  by_cases hk : rank k = rank k'
  · rw [← find_congr hk, ← find_congr hk, h, h']
  · have hfind := congrArg (fun m => m.find k') heq
    simpa only [find_insert, if_neg hk] using hfind

/-- Changes the values. -/
def mapValues (f : V → V) (m : RankedMap rank V) : RankedMap rank V :=
  ⟨m.entries.map fun e => (e.1, f e.2), List.pairwise_map.mpr m.sorted⟩

theorem mapValues_eq_self_iff {f : V → V} {m : RankedMap rank V} :
    m.mapValues f = m ↔ ∀ e ∈ m.entries, f e.2 = e.2 := by
  constructor
  · intro h e he
    have hentries : m.entries.map (fun e => (e.1, f e.2)) = m.entries := congrArg entries h
    have hmem := List.mem_map.mpr ⟨e, he, rfl⟩ |> fun h => hentries ▸ h
    -- both entries have the key of `e`
    have hfind := find_eq_some_of_mem (m := m) hmem
    rw [find_eq_some_of_mem he] at hfind
    exact (Prod.mk.inj (Option.some.inj hfind)).2.symm
  · intro h
    have hentries : m.entries.map (fun e => (e.1, f e.2)) = m.entries := by
      conv_rhs => rw [← List.map_id m.entries]
      refine List.map_congr_left fun e he => ?_
      rw [h e he]
      rfl
    show (⟨_, _⟩ : RankedMap rank V) = _
    cases m
    congr

end RankedMap

end Muhui
