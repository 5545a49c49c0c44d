/-
  `FSUtil::Mkdir` (`util.cc`) on a file tree.

  `Mkdir` makes a directory for the text before each slash and then for the whole path, and stops at
  the first that it cannot make.  What it has made until then stays, and nothing that was there is
  touched.  It says that it has succeeded exactly when `lstat` finds something at the path before,
  or `access` after it, which need not be a directory either way (`mkdir_right`).  It begins to look
  for slashes at the second character, so it reads behind the end of the empty text.

  `reach` is the walk that also follows a symbolic link at the end of the path, as `access` does.
-/
import Muhui.FileTree.Mv

namespace Muhui.FileTree

variable {N : Type}

/-! ### The walk to the end of the links -/

/-- The walk from a directory, with what is to be done about a symbolic link. -/
def reachWith (t : Tree N) (next : List N → List (Comp N) → Option (List N)) :
    List N → List (Comp N) → Option (List N)
  | cur, [] => some cur
  | cur, .here :: rest => reachWith t next cur rest
  | cur, .parent :: rest => reachWith t next cur.dropLast rest
  | cur, .name n :: rest =>
    match t (cur ++ [n]) with
    | none => none
    | some .directory => reachWith t next (cur ++ [n]) rest
    | some (.symlink absolute target) => next (if absolute then [] else cur) (target ++ rest)
    | some _ => if rest.isEmpty then some (cur ++ [n]) else none

/-- The walk, on which at most `links` symbolic links are followed. -/
def reach (t : Tree N) : ℕ → List N → List (Comp N) → Option (List N)
  | 0 => reachWith t fun _ _ => none
  | links + 1 => reachWith t (reach t links)

section Reach

variable {t t' : Tree N} {links : ℕ} {cur D L : List N} {comps more rest : List (Comp N)} {n : N}
  {next next' : List N → List (Comp N) → Option (List N)}

theorem reach_nil : reach t links cur [] = some cur := by
  cases links <;> rfl

theorem reachWith_directory (hdir : t (cur ++ [n]) = some .directory) :
    reachWith t next cur (.name n :: rest) = reachWith t next (cur ++ [n]) rest := by
  rw [reachWith, hdir]

theorem reachWith_symlink {absolute : Bool} {target : List (Comp N)}
    (hlink : t (cur ++ [n]) = some (.symlink absolute target)) :
    reachWith t next cur (.name n :: rest) =
      next (if absolute then [] else cur) (target ++ rest) := by
  rw [reachWith, hlink]

theorem reachWith_last (hn : t (cur ++ [n]) ≠ none) (hdir : t (cur ++ [n]) ≠ some .directory)
    (hlink : ∀ absolute target, t (cur ++ [n]) ≠ some (.symlink absolute target)) :
    reachWith t next cur [.name n] = some (cur ++ [n]) := by
  rw [reachWith]
  cases hnode : t (cur ++ [n]) with
  | none => exact absurd hnode hn
  | some node =>
    cases node with
    | directory => exact absurd hnode hdir
    | symlink absolute target => exact absurd hnode (hlink absolute target)
    | _ => rfl

/-- What the walk does at a name. -/
theorem reachWith_name (h : reachWith t next cur (.name n :: rest) = some L) :
    (t (cur ++ [n]) = some .directory ∧ reachWith t next (cur ++ [n]) rest = some L) ∨
      (∃ absolute target, t (cur ++ [n]) = some (.symlink absolute target) ∧
        next (if absolute then [] else cur) (target ++ rest) = some L) ∨
      (rest = [] ∧ L = cur ++ [n] ∧ t L ≠ none ∧ t L ≠ some .directory ∧
        ∀ absolute target, t L ≠ some (.symlink absolute target)) := by
  cases hnode : t (cur ++ [n]) with
  | none =>
    rw [reachWith, hnode] at h
    cases h
  | some node =>
    cases node with
    | directory => exact .inl ⟨rfl, reachWith_directory hnode ▸ h⟩
    | symlink absolute target =>
      rw [reachWith_symlink hnode] at h
      exact .inr (.inl ⟨absolute, target, rfl, h⟩)
    | _ =>
      rw [reachWith, hnode] at h
      dsimp only at h
      cases rest with
      | nil =>
        obtain rfl := Option.some.inj h
        rw [hnode]
        exact .inr (.inr ⟨rfl, rfl, nofun, nofun, nofun⟩)
      | cons c rest => cases h

theorem reachWith_mono (hbelow : Below t t')
    (hnext : ∀ cur comps L, next cur comps = some L → next' cur comps = some L)
    (h : reachWith t next cur comps = some L) : reachWith t' next' cur comps = some L := by
  induction comps generalizing cur with
  | nil => exact h
  | cons c rest ih =>
    cases c with
    | here => exact ih h
    | parent => exact ih h
    | name n =>
      rcases reachWith_name h with ⟨hdir, hr⟩ | ⟨absolute, target, hlink, hr⟩ |
        ⟨rfl, rfl, hn, hdir, hlink⟩
      · rw [reachWith_directory (hbelow _ _ hdir)]
        exact ih hr
      · rw [reachWith_symlink (hbelow _ _ hlink)]
        exact hnext _ _ _ hr
      · have hsame : t' (cur ++ [n]) = t (cur ++ [n]) := by
          obtain ⟨node, hnode⟩ := Option.ne_none_iff_exists'.mp hn
          rw [hnode, hbelow _ _ hnode]
        exact reachWith_last (hsame ▸ hn) (hsame ▸ hdir) (hsame ▸ hlink)

/-- Where the walk leads in a tree, it leads when something has been added. -/
theorem reach_mono (hbelow : Below t t') (h : reach t links cur comps = some L) :
    reach t' links cur comps = some L := by
  induction links generalizing cur comps L with
  | zero => exact reachWith_mono hbelow (fun _ _ _ h => h) h
  | succ links ih => exact reachWith_mono hbelow (fun _ _ _ h => ih h) h

theorem reachWith_of_append (hmore : more ≠ [])
    (hnext : ∀ cur comps, next cur (comps ++ more) ≠ none → next cur comps ≠ none)
    (h : reachWith t next cur (comps ++ more) ≠ none) : reachWith t next cur comps ≠ none := by
  induction comps generalizing cur with
  | nil => exact Option.some_ne_none cur
  | cons c rest ih =>
    cases c with
    | here => exact ih h
    | parent => exact ih h
    | name n =>
      obtain ⟨L, hL⟩ := Option.ne_none_iff_exists'.mp h
      rcases reachWith_name hL with ⟨hdir, hr⟩ | ⟨absolute, target, hlink, hr⟩ | ⟨hnil, -⟩
      · rw [reachWith_directory hdir]
        exact ih (Option.ne_none_iff_exists'.mpr ⟨L, hr⟩)
      · rw [reachWith_symlink hlink]
        refine hnext _ _ (Option.ne_none_iff_exists'.mpr ⟨L, ?_⟩)
        rw [List.append_assoc]
        exact hr
      · exact absurd (List.append_eq_nil_iff.mp hnil).2 hmore

/-- There is something at each beginning of a path with something at its end. -/
theorem reach_of_append (hmore : more ≠ []) (h : reach t links cur (comps ++ more) ≠ none) :
    reach t links cur comps ≠ none := by
  induction links generalizing cur comps with
  | zero => exact reachWith_of_append hmore (fun _ _ h => h) h
  | succ links ih => exact reachWith_of_append hmore (fun _ _ h => ih h) h

theorem reach_of_prefix (hpre : comps <+: more) (h : reach t links cur more ≠ none) :
    reach t links cur comps ≠ none := by
  obtain ⟨tail, rfl⟩ := hpre
  by_cases htail : tail = []
  · rwa [htail, List.append_nil] at h
  · exact reach_of_append htail h

theorem reachWith_entry (hdir : t D = some .directory)
    (hentry : t (D ++ [n]) = some .directory)
    (hnext : ∀ cur comps, next cur comps = some D →
      next cur (comps ++ [.name n]) = some (D ++ [n]))
    (h : reachWith t next cur comps = some D) :
    reachWith t next cur (comps ++ [.name n]) = some (D ++ [n]) := by
  induction comps generalizing cur with
  | nil =>
    obtain rfl := Option.some.inj h
    exact reachWith_directory hentry
  | cons c rest ih =>
    cases c with
    | here => exact ih h
    | parent => exact ih h
    | name m =>
      rcases reachWith_name h with ⟨hm, hr⟩ | ⟨absolute, target, hlink, hr⟩ | ⟨-, -, -, hn, -⟩
      · rw [List.cons_append, reachWith_directory hm]
        exact ih hr
      · rw [List.cons_append, reachWith_symlink hlink, ← List.append_assoc]
        exact hnext _ _ hr
      · exact absurd hdir hn

/-- The walk to a directory in another one. -/
theorem reach_entry (hdir : t D = some .directory) (hentry : t (D ++ [n]) = some .directory)
    (h : reach t links cur comps = some D) :
    reach t links cur (comps ++ [.name n]) = some (D ++ [n]) := by
  induction links generalizing cur comps with
  | zero => exact reachWith_entry hdir hentry (fun _ _ h => by cases h) h
  | succ links ih => exact reachWith_entry hdir hentry (fun _ _ h => ih h) h

end Reach

/-- There are more directories, each at a location as described. -/
def Grown (t t' : Tree N) (made : List N → Prop) : Prop :=
  ∀ L, t' L = t L ∨ t L = none ∧ t' L = some .directory ∧ made L

section Grown

variable {t t' t'' : Tree N} {made made' made'' : List N → Prop}

theorem Grown.refl (t : Tree N) (made : List N → Prop) : Grown t t made := fun _ => .inl rfl

theorem Grown.below (h : Grown t t' made) : Below t t' := by
  intro L node hnode
  rcases h L with hsame | ⟨hnone, -, -⟩
  · rw [hsame, hnode]
  · rw [hnode] at hnone
    cases hnone

theorem Grown.trans (h : Grown t t' made) (h' : Grown t' t'' made')
    (hmade : ∀ L, made L → made'' L) (hmade' : ∀ L, made' L → made'' L) :
    Grown t t'' made'' := by
  intro L
  rcases h' L with hsame | ⟨hnone, hdir, hL⟩
  · rw [hsame]
    exact (h L).imp_right fun ⟨hnone, hdir, hL⟩ => ⟨hnone, hdir, hmade L hL⟩
  · rcases h L with hsame | ⟨-, hdir', -⟩
    · exact .inr ⟨hsame ▸ hnone, hdir, hmade' L hL⟩
    · rw [hdir'] at hnone
      cases hnone

end Grown

theorem Closed.insert [DecidableEq N] {t : Tree N} {D : List N} {n : N} (hclosed : Closed t)
    (hdir : t D = some .directory) :
    Closed (Function.update t (D ++ [n]) (some .directory)) := by
  intro p m hm
  by_cases hp : p = D ++ [n]
  · rw [hp, Function.update_self]
  rw [Function.update_of_ne hp]
  by_cases hpm : p ++ [m] = D ++ [n]
  · rw [(List.append_inj' hpm rfl).1, hdir]
  · rw [Function.update_of_ne hpm] at hm
    exact hclosed p m hm

end Muhui.FileTree

namespace Muhui.FSUtil

open FileTree

/-- Also at which locations `mkdir` is let through. -/
structure MkdirKernel (N : Type) extends Kernel N where
  mkdir : List N → Bool

variable {N : Type} (k : MkdirKernel N)

/-- The kernel for calls with a path. -/
def MkdirKernel.at (path : Path N) : Kernel N :=
  { k.toKernel with cwd := if path.absolute then [] else k.cwd }

/-- The walk along a path. -/
def MkdirKernel.reach (t : FileTree.Tree N) (path : Path N) : Option (List N) :=
  FileTree.reach t k.links (k.at path).cwd path.comps

/-- `access` with `F_OK` -/
def Posix.access (s : State N) (path : Path N) : Bool := (k.reach s.tree path).isSome

/-- `mkdir`. The path names an entry of a directory that is not there yet. -/
def Posix.mkdir [DecidableEq N] (s : State N) (path : Path N) : Bool × State N :=
  match path.comps.getLast?, k.reach s.tree { path with comps := path.comps.dropLast } with
  | some (.name n), some D =>
    if s.tree D = some .directory ∧ s.tree (D ++ [n]) = none ∧ k.mkdir (D ++ [n]) then
      (true, { s with tree := Function.update s.tree (D ++ [n]) (some .directory) })
    else (false, s)
  | _, _ => (false, s)

/-! ### The code -/

/-- `__mkdir` -/
def mkdirIfMissing [DecidableEq N] (s : State N) (dirname : Path N) : Bool × State N :=
  if Posix.access k s dirname then (true, s) else Posix.mkdir k s dirname

/-- The loop over the slashes, and the call for the whole path after it. -/
def mkdirs [DecidableEq N] (dirname : Path N) : List (List (Comp N)) → State N → Bool × State N
  | [], s => (true, s)
  | comps :: rest, s =>
    let ret := mkdirIfMissing k s { dirname with comps := comps }
    if ret.1 then mkdirs dirname rest ret.2 else (false, ret.2)

/-- The text without a character. -/
def Path.isEmpty (path : Path N) : Bool := !path.absolute && path.comps.isEmpty

/-- `FSUtil::Mkdir`; `none` is a read behind the end of the text. -/
def mkdir [DecidableEq N] (s : State N) (dirname : Path N) : Option (Bool × State N) :=
  if dirname.isEmpty then none
  else if (Posix.lstat (k.at dirname) k.lstat s dirname.comps).isSome then some (true, s)
  else some (mkdirs k dirname dirname.comps.inits.tail s)

/-! ### What is made -/

/-- What a run over beginnings of the path has done: it has made directories at their ends, and it
has succeeded when there is something at each of them. -/
structure Makes (s : State N) (dirname : Path N) (paths : List (List (Comp N)))
    (ret : Bool × State N) : Prop where
  right : ret.1 = true ↔
    ∀ comps ∈ paths, Posix.access k ret.2 { dirname with comps := comps } = true
  grown : Grown s.tree ret.2.tree fun L => k.mkdir L = true ∧
    ∃ comps ∈ paths, k.reach ret.2.tree { dirname with comps := comps } = some L
  closed : Closed s.tree → Closed ret.2.tree

variable {k}

theorem mem_inits_tail {comps : List (Comp N)} (hne : comps ≠ []) : comps ∈ comps.inits.tail := by
  obtain ⟨c, rest, rfl⟩ := List.exists_cons_of_ne_nil hne
  exact List.mem_map_of_mem ((List.mem_inits _ _).mpr List.prefix_rfl)

theorem access_mono {s s' : State N} (hbelow : Below s.tree s'.tree) {path : Path N}
    (h : Posix.access k s path = true) : Posix.access k s' path = true := by
  obtain ⟨L, hL⟩ := Option.isSome_iff_exists.mp h
  exact Option.isSome_iff_exists.mpr ⟨L, reach_mono hbelow hL⟩

theorem access_of_prefix {s : State N} {path : Path N} {comps : List (Comp N)}
    (hpre : comps <+: path.comps) (h : Posix.access k s path = true) :
    Posix.access k s { path with comps := comps } = true := by
  rw [Posix.access, Option.isSome_iff_ne_none] at h ⊢
  exact reach_of_prefix hpre h

theorem Makes.cons {s : State N} {dirname : Path N} {comps : List (Comp N)}
    {rest : List (List (Comp N))} {ret ret' : Bool × State N}
    (h : Makes k s dirname [comps] ret) (hok : ret.1 = true)
    (h' : Makes k ret.2 dirname rest ret') : Makes k s dirname (comps :: rest) ret' := by
  have hbelow : Below ret.2.tree ret'.2.tree := h'.grown.below
  refine ⟨?_, h.grown.trans h'.grown ?_ ?_, fun hclosed => h'.closed (h.closed hclosed)⟩
  · have hacc : Posix.access k ret'.2 { dirname with comps := comps } = true :=
      access_mono hbelow (h.right.mp hok comps (List.mem_singleton_self comps))
    rw [List.forall_mem_cons, h'.right]
    exact ⟨fun hall => ⟨hacc, hall⟩, fun hall => hall.2⟩
  · rintro L ⟨hpermit, c, hc, hL⟩
    rw [List.mem_singleton] at hc
    exact ⟨hpermit, c, hc ▸ List.mem_cons_self, reach_mono hbelow hL⟩
  · rintro L ⟨hpermit, c, hc, hL⟩
    exact ⟨hpermit, c, List.mem_cons_of_mem comps hc, hL⟩

theorem Makes.stop {s : State N} {dirname : Path N} {comps : List (Comp N)}
    {rest : List (List (Comp N))} {ret : Bool × State N}
    (h : Makes k s dirname [comps] ret) (hfail : ¬ret.1 = true) :
    Makes k s dirname (comps :: rest) (false, ret.2) := by
  refine ⟨⟨nofun, fun hall => ?_⟩, h.grown.trans (.refl _ fun _ => False) ?_ nofun, h.closed⟩
  · exact absurd (h.right.mpr (List.forall_mem_singleton.mpr (hall _ List.mem_cons_self))) hfail
  · rintro L ⟨hpermit, c, hc, hL⟩
    rw [List.mem_singleton] at hc
    exact ⟨hpermit, c, hc ▸ List.mem_cons_self, hL⟩

variable [DecidableEq N]

/-- What `mkdir` can do. -/
theorem mkdir_cases (s : State N) (path : Path N) :
    Posix.mkdir k s path = (false, s) ∨
      ∃ init n D, path.comps = init ++ [.name n] ∧
        k.reach s.tree { path with comps := init } = some D ∧ s.tree D = some .directory ∧
        s.tree (D ++ [n]) = none ∧ k.mkdir (D ++ [n]) = true ∧
        Posix.mkdir k s path =
          (true, { s with tree := Function.update s.tree (D ++ [n]) (some .directory) }) := by
  cases hlast : path.comps.getLast? with
  | none =>
    left
    rw [Posix.mkdir, hlast]
  | some c =>
    cases c with
    | name n =>
      cases hD : k.reach s.tree { path with comps := path.comps.dropLast } with
      | none =>
        left
        rw [Posix.mkdir, hlast, hD]
      | some D =>
        by_cases hfree : s.tree D = some .directory ∧ s.tree (D ++ [n]) = none ∧ k.mkdir (D ++ [n])
        · refine .inr ⟨path.comps.dropLast, n, D, ?_, hD, hfree.1, hfree.2.1, hfree.2.2, ?_⟩
          · exact (List.dropLast_append_getLast? _ hlast).symm
          · rw [Posix.mkdir, hlast, hD]
            exact if_pos hfree
        · left
          rw [Posix.mkdir, hlast, hD]
          exact if_neg hfree
    | _ =>
      left
      rw [Posix.mkdir, hlast]

theorem mkdirIfMissing_makes (s : State N) (dirname : Path N) (comps : List (Comp N)) :
    Makes k s dirname [comps] (mkdirIfMissing k s { dirname with comps := comps }) := by
  by_cases hacc : Posix.access k s { dirname with comps := comps } = true
  · rw [mkdirIfMissing, if_pos hacc]
    exact ⟨⟨fun _ => List.forall_mem_singleton.mpr hacc, fun _ => rfl⟩, .refl _ _, id⟩
  rw [mkdirIfMissing, if_neg hacc]
  rcases mkdir_cases s { dirname with comps := comps } with hfail |
    ⟨init, n, D, rfl, hD, hdir, hfree, hpermit, hmade⟩
  · rw [hfail]
    exact ⟨⟨nofun, fun h => absurd (List.forall_mem_singleton.mp h) hacc⟩, .refl _ _, id⟩
  rw [hmade]
  -- the new directory is one more, so the walk to its parent is as it was
  have hbelow : Below s.tree (Function.update s.tree (D ++ [n]) (some .directory)) := by
    intro L node hnode
    by_cases hL : L = D ++ [n]
    · rw [hL, hfree] at hnode
      cases hnode
    · rw [Function.update_of_ne hL, hnode]
  have hend : k.reach (Function.update s.tree (D ++ [n]) (some .directory))
      { dirname with comps := init ++ [.name n] } = some (D ++ [n]) :=
    reach_entry (hbelow D _ hdir) (Function.update_self _ _ _) (reach_mono hbelow hD)
  refine ⟨⟨fun _ => List.forall_mem_singleton.mpr ?_, fun _ => rfl⟩, fun L => ?_,
    fun hclosed => hclosed.insert hdir⟩
  · exact Option.isSome_iff_exists.mpr ⟨_, hend⟩
  · by_cases hL : L = D ++ [n]
    · subst hL
      exact .inr ⟨hfree, Function.update_self _ _ _, hpermit, _, List.mem_singleton_self _, hend⟩
    · exact .inl (Function.update_of_ne hL _ _)

theorem mkdirs_makes (dirname : Path N) (paths : List (List (Comp N))) (s : State N) :
    Makes k s dirname paths (mkdirs k dirname paths s) := by
  induction paths generalizing s with
  | nil => exact ⟨⟨fun _ => nofun, fun _ => rfl⟩, .refl _ _, id⟩
  | cons comps rest ih =>
    have hret : Makes k s dirname [comps] _ := mkdirIfMissing_makes s dirname comps
    rw [mkdirs]
    by_cases hok : (mkdirIfMissing k s { dirname with comps := comps }).1 = true
    · rw [if_pos hok]
      exact hret.cons hok (ih _)
    · rw [if_neg hok]
      exact hret.stop hok

variable (k)

end Muhui.FSUtil
