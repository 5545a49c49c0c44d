/-
  File trees and the walk along a path.

  A tree gives the node at each location, a list of names from the root.  The walk follows the
  symbolic links on its way, but not one at the end of the path, and it records the locations that
  it goes through.  They are all that it depends on (`walk_congr`), and a tree from which something
  has been removed leads it to the same place or nowhere (`walk_mono`).

  `walk_append` says how the walk goes on behind its end.
-/
import Mathlib.Data.List.Basic
import Mathlib.Data.List.Induction
import Mathlib.Data.List.Infix
import Mathlib.Logic.Function.Basic

namespace Muhui.FileTree

/-- A component of a path: a name, `.` or `..`. -/
inductive Comp (N : Type)
  | name (n : N)
  | here
  | parent
  deriving DecidableEq

inductive Node (N : Type)
  | directory
  | regular
  | symlink (absolute : Bool) (target : List (Comp N))
  | socket
  | fifo
  | charDevice
  | blockDevice
  deriving DecidableEq

abbrev Tree (N : Type) := List N → Option (Node N)

variable {N : Type}

/-! ### The walk -/

/-- The walk from a directory, with what is to be done about a symbolic link: where it leads, and
the locations it goes through. -/
def walkWith (t : Tree N) (next : List N → List (Comp N) → Option (List N × List (List N))) :
    List N → List (Comp N) → Option (List N × List (List N))
  | cur, [] => some (cur, [])
  | cur, .here :: rest => walkWith t next cur rest
  | cur, .parent :: rest => walkWith t next cur.dropLast rest
  | cur, .name n :: rest =>
    match t (cur ++ [n]) with
    | none => none
    | some node =>
      if rest.isEmpty then some (cur ++ [n], [])
      else
        match node with
        | .directory =>
          (walkWith t next (cur ++ [n]) rest).map fun r => (r.1, (cur ++ [n]) :: r.2)
        | .symlink absolute target =>
          (next (if absolute then [] else cur) (target ++ rest)).map fun r =>
            (r.1, (cur ++ [n]) :: r.2)
        | _ => none

/-- The walk, on which at most `links` symbolic links are followed. -/
def walk (t : Tree N) : ℕ → List N → List (Comp N) → Option (List N × List (List N))
  | 0 => walkWith t fun _ _ => none
  | links + 1 => walkWith t (walk t links)

/-- All nodes of `t'` are nodes of `t`. -/
def Below (t' t : Tree N) : Prop := ∀ p node, t' p = some node → t p = some node

variable {t t' : Tree N} {links : ℕ} {cur L : List N} {V : List (List N)}
  {comps more : List (Comp N)} {n : N}
  {next next' : List N → List (Comp N) → Option (List N × List (List N))}

theorem Below.refl (t : Tree N) : Below t t := fun _ _ h => h

theorem Below.trans {t₁ t₂ t₃ : Tree N} (h : Below t₁ t₂) (h' : Below t₂ t₃) : Below t₁ t₃ :=
  fun p node hp => h' p node (h p node hp)

theorem Below.eq (h : Below t' t) {p : List N} (hp : t' p ≠ none) : t' p = t p := by
  obtain ⟨node, hnode⟩ := Option.ne_none_iff_exists'.mp hp
  rw [hnode, h p node hnode]

theorem walkWith_last (hn : t (cur ++ [n]) ≠ none) :
    walkWith t next cur [.name n] = some (cur ++ [n], []) := by
  obtain ⟨node, hnode⟩ := Option.ne_none_iff_exists'.mp hn
  rw [walkWith, hnode]
  rfl

theorem walkWith_directory (hdir : t (cur ++ [n]) = some .directory) (hmore : more ≠ []) :
    walkWith t next cur (.name n :: more) =
      (walkWith t next (cur ++ [n]) more).map fun r => (r.1, (cur ++ [n]) :: r.2) := by
  rw [walkWith, hdir]
  exact if_neg fun hempty => hmore (List.isEmpty_iff.mp hempty)

theorem walkWith_symlink {absolute : Bool} {target : List (Comp N)}
    (hlink : t (cur ++ [n]) = some (.symlink absolute target)) (hmore : more ≠ []) :
    walkWith t next cur (.name n :: more) =
      (next (if absolute then [] else cur) (target ++ more)).map fun r =>
        (r.1, (cur ++ [n]) :: r.2) := by
  rw [walkWith, hlink]
  exact if_neg fun hempty => hmore (List.isEmpty_iff.mp hempty)

/-- What the walk does at a name. -/
theorem walkWith_name (h : walkWith t next cur (.name n :: more) = some (L, V)) :
    (more = [] ∧ L = cur ++ [n] ∧ V = [] ∧ t L ≠ none) ∨
      (more ≠ [] ∧ ∃ V', V = (cur ++ [n]) :: V' ∧
        (t (cur ++ [n]) = some .directory ∧ walkWith t next (cur ++ [n]) more = some (L, V') ∨
          ∃ absolute target, t (cur ++ [n]) = some (.symlink absolute target) ∧
            next (if absolute then [] else cur) (target ++ more) = some (L, V'))) := by
  cases hnode : t (cur ++ [n]) with
  | none =>
    rw [walkWith, hnode] at h
    cases h
  | some node =>
    by_cases hmore : more = []
    · subst hmore
      have hsome : t (cur ++ [n]) ≠ none := by
        rw [hnode]
        exact Option.some_ne_none node
      rw [walkWith_last hsome] at h
      obtain ⟨rfl, rfl⟩ := Prod.mk.inj (Option.some.inj h)
      exact .inl ⟨rfl, rfl, rfl, hsome⟩
    refine .inr ⟨hmore, ?_⟩
    cases node with
    | directory =>
      rw [walkWith_directory hnode hmore] at h
      obtain ⟨⟨L', V'⟩, hr, heq⟩ := Option.map_eq_some_iff.mp h
      obtain ⟨rfl, rfl⟩ := Prod.mk.inj heq
      exact ⟨V', rfl, .inl ⟨rfl, hr⟩⟩
    | symlink absolute target =>
      rw [walkWith_symlink hnode hmore] at h
      obtain ⟨⟨L', V'⟩, hr, heq⟩ := Option.map_eq_some_iff.mp h
      obtain ⟨rfl, rfl⟩ := Prod.mk.inj heq
      exact ⟨V', rfl, .inr ⟨absolute, target, rfl, hr⟩⟩
    | _ =>
      rw [walkWith, hnode] at h
      dsimp only at h
      rw [if_neg fun hempty => hmore (List.isEmpty_iff.mp hempty)] at h
      cases h

theorem walkWith_congr
    (hnext : ∀ cur comps L V, next cur comps = some (L, V) → (∀ v ∈ L :: V, t' v = t v) →
      next' cur comps = some (L, V))
    (h : walkWith t next cur comps = some (L, V)) (hsame : ∀ v ∈ L :: V, t' v = t v) :
    walkWith t' next' cur comps = some (L, V) := by
  induction comps generalizing cur L V with
  | nil => exact h
  | cons c rest ih =>
    cases c with
    | here => exact ih h hsame
    | parent => exact ih h hsame
    | name n =>
      rcases walkWith_name h with ⟨rfl, rfl, rfl, hn⟩ | ⟨hrest, V', rfl, hway⟩
      · exact walkWith_last (hsame _ List.mem_cons_self ▸ hn)
      -- the first node is one that the walk goes through
      rw [List.forall_mem_cons, List.forall_mem_cons] at hsame
      obtain ⟨hend, hhead, hV'⟩ := hsame
      have hsame' : ∀ v ∈ L :: V', t' v = t v := List.forall_mem_cons.mpr ⟨hend, hV'⟩
      rcases hway with ⟨hdir, hr⟩ | ⟨absolute, target, hlink, hr⟩
      · rw [walkWith_directory (hhead.trans hdir) hrest, ih hr hsame']
        rfl
      · rw [walkWith_symlink (hhead.trans hlink) hrest, hnext _ _ _ _ hr hsame']
        rfl

/-- The walk depends on the nodes that it goes through and on that at its end. -/
theorem walk_congr (h : walk t links cur comps = some (L, V)) (hsame : ∀ v ∈ L :: V, t' v = t v) :
    walk t' links cur comps = some (L, V) := by
  induction links generalizing cur comps L V with
  | zero => exact walkWith_congr (fun _ _ _ _ h => by cases h) h hsame
  | succ links ih => exact walkWith_congr (fun _ _ _ _ h hsame => ih h hsame) h hsame

theorem walkWith_mono (hbelow : Below t' t)
    (hnext : ∀ cur comps r, next' cur comps = some r → next cur comps = some r)
    {r : List N × List (List N)} (h : walkWith t' next' cur comps = some r) :
    walkWith t next cur comps = some r := by
  obtain ⟨L, V⟩ := r
  induction comps generalizing cur L V with
  | nil => exact h
  | cons c rest ih =>
    cases c with
    | here => exact ih _ _ h
    | parent => exact ih _ _ h
    | name n =>
      rcases walkWith_name h with ⟨rfl, rfl, rfl, hn⟩ | ⟨hrest, V', rfl, hway⟩
      · exact walkWith_last (hbelow.eq hn ▸ hn)
      rcases hway with ⟨hdir, hr⟩ | ⟨absolute, target, hlink, hr⟩
      · rw [walkWith_directory (hbelow _ _ hdir) hrest, ih _ _ hr]
        rfl
      · rw [walkWith_symlink (hbelow _ _ hlink) hrest, hnext _ _ _ hr]
        rfl

/-- Where the walk leads in a tree from which something has been removed, it leads in the tree. -/
theorem walk_mono (hbelow : Below t' t) {r : List N × List (List N)}
    (h : walk t' links cur comps = some r) : walk t links cur comps = some r := by
  induction links generalizing cur comps r with
  | zero => exact walkWith_mono hbelow (fun _ _ _ h => h) h
  | succ links ih => exact walkWith_mono hbelow (fun _ _ _ h => ih h) h

theorem walkWith_exists
    (hnext : ∀ cur comps L V, next cur comps = some (L, V) → ∀ v ∈ V, t v ≠ none)
    (h : walkWith t next cur comps = some (L, V)) : ∀ v ∈ V, t v ≠ none := by
  induction comps generalizing cur L V with
  | nil =>
    obtain ⟨rfl, rfl⟩ := Prod.mk.inj (Option.some.inj h)
    exact nofun
  | cons c rest ih =>
    cases c with
    | here => exact ih h
    | parent => exact ih h
    | name n =>
      rcases walkWith_name h with ⟨-, -, rfl, -⟩ | ⟨-, V', rfl, hway⟩
      · exact nofun
      rw [List.forall_mem_cons]
      rcases hway with ⟨hdir, hr⟩ | ⟨absolute, target, hlink, hr⟩
      · exact ⟨by rw [hdir]; exact Option.some_ne_none _, ih hr⟩
      · exact ⟨by rw [hlink]; exact Option.some_ne_none _, hnext _ _ _ _ hr⟩

/-- What the walk goes through exists. -/
theorem walk_exists (h : walk t links cur comps = some (L, V)) : ∀ v ∈ V, t v ≠ none := by
  induction links generalizing cur comps L V with
  | zero => exact walkWith_exists (fun _ _ _ _ h => by cases h) h
  | succ links ih => exact walkWith_exists (fun _ _ _ _ h => ih h) h

/-- A walk comes to its end, or to the directory of the entry at its end, and goes on from there. -/
def ComesTo (t : Tree N) (go : List (Comp N) → Option (List N × List (List N))) (L : List N)
    (V : List (List N)) : Prop :=
  ∃ links,
    (∀ more, go more = (walk t links L more).map fun r => (r.1, V ++ r.2)) ∨
    ∃ d b, L = d ++ [b] ∧
      ∀ more, go more = (walk t links d (.name b :: more)).map fun r => (r.1, V ++ r.2)

theorem ComesTo.cons {go go' : List (Comp N) → Option (List N × List (List N))} {v : List N}
    (h : ComesTo t go L V) (hgo' : ∀ more, go' more = (go more).map fun r => (r.1, v :: r.2)) :
    ComesTo t go' L (v :: V) := by
  have hmap {o : Option (List N × List (List N))} :
      (o.map fun r => (r.1, V ++ r.2)).map (fun r => (r.1, v :: r.2)) =
        o.map fun r => (r.1, v :: V ++ r.2) := by
    rw [Option.map_map]
    rfl
  obtain ⟨l, hgo | ⟨d, b, hL, hgo⟩⟩ := h
  · exact ⟨l, .inl fun more => by rw [hgo', hgo, hmap]⟩
  · exact ⟨l, .inr ⟨d, b, hL, fun more => by rw [hgo', hgo, hmap]⟩⟩

theorem walkWith_append {l : ℕ} (hl : walk t l = walkWith t next)
    (hnext : ∀ cur comps L V, next cur comps = some (L, V) →
      ComesTo t (fun more => next cur (comps ++ more)) L V)
    (h : walkWith t next cur comps = some (L, V)) :
    ComesTo t (fun more => walkWith t next cur (comps ++ more)) L V := by
  induction comps generalizing cur L V with
  | nil =>
    obtain ⟨rfl, rfl⟩ := Prod.mk.inj (Option.some.inj h)
    refine ⟨l, .inl fun more => ?_⟩
    rw [hl]
    exact Option.map_id'.symm
  | cons c rest ih =>
    cases c with
    | here => exact ih h
    | parent => exact ih h
    | name n =>
      rcases walkWith_name h with ⟨rfl, rfl, rfl, -⟩ | ⟨hrest, V', rfl, hway⟩
      · -- the entry at the end: there is more behind it now
        refine ⟨l, .inr ⟨cur, n, rfl, fun more => ?_⟩⟩
        rw [hl]
        exact Option.map_id'.symm
      have hmore (more : List (Comp N)) : rest ++ more ≠ [] :=
        List.append_ne_nil_of_left_ne_nil hrest more
      rcases hway with ⟨hdir, hr⟩ | ⟨absolute, target, hlink, hr⟩
      · exact (ih hr).cons fun more => walkWith_directory hdir (hmore more)
      · refine (hnext _ _ _ _ hr).cons fun more => ?_
        rw [List.append_assoc]
        exact walkWith_symlink hlink (hmore more)

/-- How a walk goes on. -/
theorem walk_append (h : walk t links cur comps = some (L, V)) :
    ComesTo t (fun more => walk t links cur (comps ++ more)) L V := by
  induction links generalizing cur comps L V with
  | zero =>
    have hl : walk t 0 = walkWith t fun _ _ => none := rfl
    exact walkWith_append hl (fun _ _ _ _ h => by cases h) h
  | succ links ih =>
    have hl : walk t (links + 1) = walkWith t (walk t links) := rfl
    exact walkWith_append hl (fun _ _ _ _ h => ih h) h

/-! ### Behind the end -/

theorem walk_last (t : Tree N) (links : ℕ) (cur : List N) (n : N) :
    walk t links cur [.name n] = if t (cur ++ [n]) = none then none else some (cur ++ [n], []) := by
  have hwith (next) : walkWith t next cur [.name n] =
      if t (cur ++ [n]) = none then none else some (cur ++ [n], []) := by
    split_ifs with hn
    · rw [walkWith, hn]
    · exact walkWith_last hn
  cases links <;> exact hwith _

theorem walk_directory (hdir : t (cur ++ [n]) = some .directory) (hmore : more ≠ []) :
    walk t links cur (.name n :: more) =
      (walk t links (cur ++ [n]) more).map fun r => (r.1, (cur ++ [n]) :: r.2) := by
  cases links <;> exact walkWith_directory hdir hmore

theorem walk_none (hdir : t (cur ++ [n]) ≠ some .directory)
    (hlink : ∀ absolute target, t (cur ++ [n]) ≠ some (.symlink absolute target))
    (hmore : more ≠ []) : walk t links cur (.name n :: more) = none := by
  have hwith (next) : walkWith t next cur (.name n :: more) = none := by
    by_contra hsome
    obtain ⟨r, hr⟩ := Option.ne_none_iff_exists'.mp hsome
    rcases walkWith_name hr with ⟨hnil, -⟩ | ⟨-, V', -, ⟨heq, -⟩ | ⟨absolute, target, heq, -⟩⟩
    · exact hmore hnil
    · exact hdir heq
    · exact hlink absolute target heq
  cases links <;> exact hwith _

theorem walkWith_name_eq (hnext : ∀ cur comps, next cur (comps ++ [.name n]) =
      (next cur (comps ++ [.here])).bind fun r =>
        if t (r.1 ++ [n]) = none then none else some (r.1 ++ [n], r.2))
    (cur : List N) (comps : List (Comp N)) :
    walkWith t next cur (comps ++ [.name n]) =
      (walkWith t next cur (comps ++ [.here])).bind fun r =>
        if t (r.1 ++ [n]) = none then none else some (r.1 ++ [n], r.2) := by
  induction comps generalizing cur with
  | nil =>
    show walkWith t next cur [.name n] =
      if t (cur ++ [n]) = none then none else some (cur ++ [n], [])
    split_ifs with hn
    · rw [walkWith, hn]
    · exact walkWith_last hn
  | cons c rest ih =>
    cases c with
    | here => exact ih cur
    | parent => exact ih cur.dropLast
    | name m =>
      have hmore (c : Comp N) : rest ++ [c] ≠ [] := List.append_ne_nil_of_right_ne_nil rest nofun
      have hempty (c : Comp N) : ¬(rest ++ [c]).isEmpty = true := fun h =>
        hmore c (List.isEmpty_iff.mp h)
      -- what is on the way to the directory is on the way to the entry
      have hmap (o : Option (List N × List (List N))) (v : List N) :
          ((o.bind fun r => if t (r.1 ++ [n]) = none then none else some (r.1 ++ [n], r.2)).map
              fun r => (r.1, v :: r.2)) =
            (o.map fun r => (r.1, v :: r.2)).bind fun r =>
              if t (r.1 ++ [n]) = none then none else some (r.1 ++ [n], r.2) := by
        cases o with
        | none => rfl
        | some r =>
          simp only [Option.bind_some, Option.map_some]
          split_ifs <;> rfl
      rw [List.cons_append, List.cons_append]
      cases hnode : t (cur ++ [m]) with
      | none =>
        rw [walkWith, walkWith, hnode]
        rfl
      | some node =>
        cases node with
        | directory =>
          rw [walkWith_directory hnode (hmore _), walkWith_directory hnode (hmore _), ih, hmap]
        | symlink absolute link =>
          rw [walkWith_symlink hnode (hmore _), walkWith_symlink hnode (hmore _),
            ← List.append_assoc, ← List.append_assoc, hnext, hmap]
        | _ =>
          rw [walkWith, walkWith, hnode]
          dsimp only
          rw [if_neg (hempty _), if_neg (hempty _)]
          rfl

/-- Where a path leads that ends in a name: to the entry of the directory that it names. -/
theorem walk_name (t : Tree N) (links : ℕ) (cur : List N) (comps : List (Comp N)) (n : N) :
    walk t links cur (comps ++ [.name n]) =
      (walk t links cur (comps ++ [.here])).bind fun r =>
        if t (r.1 ++ [n]) = none then none else some (r.1 ++ [n], r.2) := by
  induction links generalizing cur comps with
  | zero => exact walkWith_name_eq (fun _ _ => rfl) cur comps
  | succ links ih => exact walkWith_name_eq ih cur comps

section End

variable (h : walk t links cur comps = some (L, V))
include h

/-- The entries of a directory. -/
theorem walk_entry (hdir : t L = some .directory) : ∃ V', (∀ v ∈ V', v ∈ V ∨ v = L) ∧
    ∀ n, walk t links cur (comps ++ [.name n]) =
      if t (L ++ [n]) = none then none else some (L ++ [n], V') := by
  obtain ⟨l, hgo | ⟨d, b, rfl, hgo⟩⟩ := walk_append h
  · refine ⟨V, fun v hv => .inl hv, fun n => ?_⟩
    have hn := hgo [.name n]
    dsimp only at hn
    rw [hn, walk_last]
    split_ifs with hnone
    · rfl
    · simp only [Option.map_some, List.append_nil]
  · refine ⟨V ++ [d ++ [b]], fun v hv => (List.mem_append.mp hv).imp_right List.mem_singleton.mp,
      fun n => ?_⟩
    have hn := hgo [.name n]
    dsimp only at hn
    rw [hn, walk_directory hdir (List.cons_ne_nil _ _), walk_last]
    split_ifs <;> rfl

theorem walk_here_directory (hdir : t L = some .directory) :
    ∃ V', walk t links cur (comps ++ [.here]) = some (L, V') := by
  have hhere (l : ℕ) (p : List N) : walk t l p [.here] = some (p, []) := by
    cases l <;> rfl
  obtain ⟨l, hgo | ⟨d, b, rfl, hgo⟩⟩ := walk_append h
  · have hend := hgo [.here]
    dsimp only at hend
    exact ⟨_, by rw [hend, hhere]; rfl⟩
  · have hend := hgo [.here]
    dsimp only at hend
    exact ⟨_, by rw [hend, walk_directory hdir (List.cons_ne_nil _ _), hhere]; rfl⟩

/-- Without a symbolic link at its end, the walk with `.` behind it leads to the same place or
nowhere. -/
theorem walk_here (hlink : ∀ absolute target, t L ≠ some (.symlink absolute target))
    {r : List N × List (List N)} (hr : walk t links cur (comps ++ [.here]) = some r) : r.1 = L := by
  by_cases hdir : t L = some .directory
  · obtain ⟨V', hV'⟩ := walk_here_directory h hdir
    rw [hV'] at hr
    exact (congrArg Prod.fst (Option.some.inj hr)).symm
  obtain ⟨l, hgo | ⟨d, b, rfl, hgo⟩⟩ := walk_append h
  · have hend := hgo [.here]
    dsimp only at hend
    have hhere : walk t l L [.here] = some (L, []) := by
      cases l <;> rfl
    rw [hend, hhere] at hr
    exact (congrArg Prod.fst (Option.some.inj hr)).symm
  · have hend := hgo [.here]
    dsimp only at hend
    rw [hend, walk_none hdir hlink (List.cons_ne_nil _ _)] at hr
    cases hr

end End

/-! ### Directories and what is below them -/

/-- Only directories have entries. -/
def Closed (t : Tree N) : Prop := ∀ p n, t (p ++ [n]) ≠ none → t p = some .directory

/-- What is below a location is below one of its entries. -/
theorem Closed.entry (hclosed : Closed t) {p : List N} (hp : t p ≠ none) (hpre : L <+: p)
    (hne : p ≠ L) : ∃ n, t (L ++ [n]) ≠ none ∧ L ++ [n] <+: p := by
  obtain ⟨q, rfl⟩ := hpre
  induction q using List.reverseRecOn with
  | nil => exact absurd (List.append_nil L) hne
  | append_singleton q m ih =>
    rw [← List.append_assoc] at hp ⊢
    by_cases hq : q = []
    · subst hq
      rw [List.append_nil] at hp ⊢
      exact ⟨m, hp, List.prefix_rfl⟩
    · have hdir := hclosed _ _ hp
      obtain ⟨n, hn, hpre⟩ := ih (by rw [hdir]; exact Option.some_ne_none _)
        fun heq => hq (List.append_right_eq_self.mp heq)
      exact ⟨n, hn, hpre.trans (List.prefix_append _ _)⟩

/-- Nothing is below what is not there. -/
theorem Closed.none_below (hclosed : Closed t) (hL : t L = none) {p : List N} (hp : L <+: p) :
    t p = none := by
  by_contra hsome
  obtain ⟨n, hn, -⟩ := hclosed.entry hsome hp fun heq => hsome (heq ▸ hL)
  cases hL.symm.trans (hclosed _ _ hn)

section Erase

variable [DecidableEq N]

/-- The tree without the node at a location. -/
def erase (t : Tree N) (L : List N) : Tree N := Function.update t L none

theorem below_erase (t : Tree N) (L : List N) : Below (erase t L) t := by
  intro p node hp
  unfold erase at hp
  rw [Function.update_apply] at hp
  split_ifs at hp
  exact hp

theorem erase_of_ne {p : List N} (h : p ≠ L) : erase t L p = t p := Function.update_of_ne h _ _

theorem erase_self (t : Tree N) (L : List N) : erase t L L = none := Function.update_self ..

/-- A node without entries may go. -/
theorem Closed.erase (hclosed : Closed t) (hempty : ∀ n, t (L ++ [n]) = none) :
    Closed (erase t L) := by
  intro p n hp
  have hp' : t (p ++ [n]) ≠ none := fun hnone => hp (by
    unfold FileTree.erase
    rw [Function.update_apply, hnone]
    split_ifs <;> rfl)
  have hne : p ≠ L := by
    rintro rfl
    exact hp' (hempty n)
  rw [erase_of_ne hne]
  exact hclosed p n hp'

/-- Nothing is left below it. -/
theorem Closed.erase_below (hclosed : Closed t) (hempty : ∀ n, t (L ++ [n]) = none) {p : List N}
    (hp : L <+: p) : FileTree.erase t L p = none := by
  by_contra hsome
  by_cases heq : p = L
  · exact hsome (heq ▸ erase_self t L)
  · rw [erase_of_ne heq] at hsome
    obtain ⟨n, hn, -⟩ := hclosed.entry hsome hp heq
    exact hn (hempty n)

end Erase

end Muhui.FileTree
