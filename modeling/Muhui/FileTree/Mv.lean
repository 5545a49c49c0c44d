/-
  `FSUtil::Mv` and `FSUtil::Symlink` (`util.cc`) on a file tree.

  Both remove what is at the new path before they call `rename` or `symlink`.  When that fails, what
  has been removed stays so; nothing else is touched (`mv_symlink`).

  `target` is the location that a path names, whether there is a node or not (`walk_name`).
-/
import Muhui.FileTree.Rm

namespace Muhui.FSUtil

open FileTree

/-- A path from the root or from the working directory. -/
structure Path (N : Type) where
  absolute : Bool
  comps : List (Comp N)

/-- Also at which locations the other two calls are let through. -/
structure MvKernel (N : Type) extends Kernel N where
  rename : List N → List N → Bool
  symlink : List N → Bool

variable {N : Type} [DecidableEq N] (k : MvKernel N)

/-- The kernel for calls with a path. -/
def MvKernel.at (path : Path N) : Kernel N :=
  { k.toKernel with cwd := if path.absolute then [] else k.cwd }

/-- The walk along a path. -/
def MvKernel.walk (t : FileTree.Tree N) (path : Path N) : Option (List N × List (List N)) :=
  FileTree.walk t k.links (k.at path).cwd path.comps

/-- The location that a path names: an entry, or what may become one, of a directory. -/
def target (t : FileTree.Tree N) (path : Path N) : Option (List N) :=
  match path.comps.getLast? with
  | some (.name n) =>
    (k.walk t { path with comps := path.comps.dropLast ++ [.here] }).bind fun r =>
      if t r.1 = some .directory then some (r.1 ++ [n]) else none
  | _ => none

/-- The tree with the subtree at `L` at `D` instead. -/
def moved (t : FileTree.Tree N) (L D : List N) : FileTree.Tree N := fun p =>
  if D <+: p then t (L ++ p.drop D.length) else if L <+: p then none else t p

/-- `rename`. The same location twice is left as it is; a directory is not moved into itself; and
what is at the new path may be replaced, a directory by a directory if it is empty. -/
def Posix.rename (names : List N → List (Comp N)) (s : State N) (old new : Path N) :
    Bool × State N :=
  match k.walk s.tree old, target k s.tree new with
  | some r, some D =>
    if endsInName old.comps ∧ k.rename r.1 D then
      if r.1 = D then (true, s)
      else if r.1 <+: D then (false, s)
      else if s.tree D = none ∨
          ((s.tree r.1 = some .directory ↔ s.tree D = some .directory) ∧
            ∀ c ∈ Posix.readdir names s.tree D, c = .here ∨ c = .parent) then
        (true, { s with tree := moved s.tree r.1 D })
      else (false, s)
    else (false, s)
  | _, _ => (false, s)

/-- `symlink` -/
def Posix.symlink (s : State N) (old new : Path N) : Bool × State N :=
  match target k s.tree new with
  | none => (false, s)
  | some D =>
    if s.tree D = none ∧ k.symlink D then
      (true, { s with tree := Function.update s.tree D (some (.symlink old.absolute old.comps)) })
    else (false, s)

/-! ### The code -/

/-- `FSUtil::Mv` -/
def mv (fs : FileSystem N) (old new : Path N) : Option (Bool × State N) :=
  (rm (k.at new) fs new.comps).map fun r =>
    if r.1 then Posix.rename k fs.names r.2 old new else (false, r.2)

/-- `FSUtil::Symlink` -/
def symlink (fs : FileSystem N) (old new : Path N) : Option (Bool × State N) :=
  (rm (k.at new) fs new.comps).map fun r =>
    if r.1 then Posix.symlink k r.2 old new else (false, r.2)

/-! ### What is left -/

variable (fs : FileSystem N) (old new : Path N)

/-- The location is in the subtree at the path. -/
def MvKernel.Under (path : Path N) (p : List N) : Prop := FSUtil.Under (k.at path) fs path.comps p

/-- The tree that was at the old path is at the new one. -/
def Moved (t : FileTree.Tree N) : Prop :=
  ∃ L V D, k.walk fs.tree old = some (L, V) ∧ fs.tree L ≠ none ∧ target k fs.tree new = some D ∧
    ∀ q, t (D ++ q) = fs.tree (L ++ q)

/-- A failure leaves the trees at the two paths as they were, and after `true` of `Mv` the tree has
moved. -/
def Safe : Prop :=
  (∃ r s, mv k fs old new = some (r, s) ∧
    (r = false → ∀ p, k.Under fs old p ∨ k.Under fs new p → s.tree p = fs.tree p) ∧
    (r = true → Moved k fs old new s.tree)) ∧
  ∃ r s, symlink k fs old new = some (r, s) ∧
    (r = false → ∀ p, k.Under fs old p ∨ k.Under fs new p → s.tree p = fs.tree p)

/-- Nodes may be missing from the subtree at the path, and that is all. -/
def Lost (path : Path N) (t : FileTree.Tree N) : Prop :=
  ∀ p, t p = fs.tree p ∨ t p = none ∧ k.Under fs path p

/-! ### Locations -/

variable {k fs old new} {t t' : FileTree.Tree N} {path : Path N} {L D : List N} {s : State N}

/-- A path leads to the location that it names, if there is a node. -/
theorem walk_target (h : target k t path = some D) :
    ∃ V, k.walk t path = if t D = none then none else some (D, V) := by
  unfold target at h
  split at h
  · next n hlast =>
    obtain ⟨r, hr, hD⟩ := Option.bind_eq_some_iff.mp h
    split_ifs at hD
    obtain rfl := Option.some.inj hD
    have hcomps : path.comps = path.comps.dropLast ++ [.name n] :=
      (List.dropLast_append_getLast? _ hlast).symm
    refine ⟨r.2, ?_⟩
    unfold MvKernel.walk at hr ⊢
    rw [hcomps, walk_name]
    exact congrArg (Option.bind · _) hr
  · cases h

theorem target_mono (hbelow : Below t' t) (h : target k t' path = some D) :
    target k t path = some D := by
  unfold target at h ⊢
  split at h
  · obtain ⟨r, hr, hD⟩ := Option.bind_eq_some_iff.mp h
    split_ifs at hD with hdir
    refine Option.bind_eq_some_iff.mpr ⟨r, walk_mono hbelow hr, ?_⟩
    rw [if_pos (hbelow _ _ hdir)]
    exact hD
  · cases h

theorem moved_append (t : FileTree.Tree N) (L D q : List N) :
    moved t L D (D ++ q) = t (L ++ q) := by
  unfold moved
  rw [if_pos (List.prefix_append D q), List.drop_left]

omit [DecidableEq N] in
/-- What a name leads to is there. -/
theorem exists_of_endsInName {V : List (List N)} (h : k.walk t path = some (L, V))
    (hname : endsInName path.comps = true) : t L ≠ none := by
  unfold endsInName at hname
  split at hname
  · next n hlast =>
    unfold MvKernel.walk at h
    rw [← List.dropLast_append_getLast? _ hlast, walk_name] at h
    obtain ⟨r, -, hr⟩ := Option.bind_eq_some_iff.mp h
    split_ifs at hr with hnone
    obtain ⟨rfl, -⟩ := Prod.mk.inj (Option.some.inj hr)
    exact hnone
  · cases hname

/-! ### The second step -/

/-- A `rename` that succeeds: the two are the same, or the subtree has moved to a location that is
not in it. -/
theorem rename_cases (names : List N → List (Comp N)) (s : State N) (old new : Path N) :
    Posix.rename k names s old new = (false, s) ∨
      ∃ L V D, k.walk s.tree old = some (L, V) ∧ s.tree L ≠ none ∧
        target k s.tree new = some D ∧
        (L = D ∧ Posix.rename k names s old new = (true, s) ∨
          ¬L <+: D ∧
            Posix.rename k names s old new = (true, { s with tree := moved s.tree L D })) := by
  unfold Posix.rename
  split
  · next r D hwalk htarget =>
    split_ifs with hcalls hsame hinto hfree
    · have hL := exists_of_endsInName hwalk hcalls.1
      exact .inr ⟨r.1, r.2, D, hwalk, hL, htarget, .inl ⟨hsame, rfl⟩⟩
    · exact .inl rfl
    · have hL := exists_of_endsInName hwalk hcalls.1
      exact .inr ⟨r.1, r.2, D, hwalk, hL, htarget, .inr ⟨hinto, rfl⟩⟩
    · exact .inl rfl
    · exact .inl rfl
  · exact .inl rfl

theorem rename_false {names : List N → List (Comp N)}
    (h : (Posix.rename k names s old new).1 = false) :
    Posix.rename k names s old new = (false, s) := by
  rcases rename_cases names s old new with hfalse | ⟨_, _, _, -, -, -, ⟨-, htrue⟩ | ⟨-, htrue⟩⟩
  · exact hfalse
  · rw [htrue] at h
    cases h
  · rw [htrue] at h
    cases h

theorem symlink_false (h : (Posix.symlink k s old new).1 = false) :
    Posix.symlink k s old new = (false, s) := by
  unfold Posix.symlink at h ⊢
  split
  · rfl
  · next D htarget =>
    rw [htarget] at h
    dsimp only at h
    split_ifs at h ⊢
    rfl

/-! ### The first step -/

omit [DecidableEq N] in
theorem Frame.lost {L : List N} {V : List (List N)} {s' : State N}
    (hwalk : k.walk fs.tree path = some (L, V))
    (h : Frame (k.at path) fs L { tree := fs.tree, entered := [] } s') :
    Lost k fs path s'.tree := by
  intro p
  rcases h.removed p with heq | ⟨hnone, hpre, -⟩
  · exact .inl heq
  · exact .inr ⟨hnone, L, V, hwalk, hpre⟩

/-- What `Rm` leaves of the tree. When it returns true, there is nothing at the path, or else
nothing has been removed. -/
theorem rm_lost (k : MvKernel N) (fs : FileSystem N) (path : Path N) :
    ∃ r s, rm (k.at path) fs path.comps = some (r, s) ∧ Sub fs s ∧ Lost k fs path s.tree ∧
      (r = true → s.tree = fs.tree ∨ ¬FSUtil.Exists (k.at path) path.comps s.tree) := by
  by_cases hexists : FSUtil.Exists (k.at path) path.comps fs.tree
  · obtain ⟨L, V, hwalk, hL⟩ := hexists
    have hfuel : fs.depth < L.length + (fs.depth + 1) := Nat.lt_add_left _ (Nat.lt_succ_self _)
    obtain ⟨⟨r, s⟩, hr, hremoves⟩ := rm_removes hwalk hL (sub_start fs) hfuel
    refine ⟨r, s, hr, hremoves.frame.sub, hremoves.frame.lost hwalk, fun htrue => ?_⟩
    obtain ⟨node, hnode⟩ := Option.ne_none_iff_exists'.mp hL
    by_cases hrefused : (k.at path).lstat L ≠ true ∨
        st_mode node &&& S_IFDIR = 0 ∧ (k.at path).relstat L ≠ true
    · have hsame : rm (k.at path) fs path.comps = some (true, { tree := fs.tree, entered := [] }) :=
        rm_of_refused (s := { tree := fs.tree, entered := [] }) hwalk hnode hrefused
      obtain ⟨-, rfl⟩ := Prod.mk.inj (Option.some.inj (hr.symm.trans hsame))
      exact .inl rfl
    · rw [not_or, not_not] at hrefused
      refine .inr (hremoves.gone htrue hrefused.1 fun node' hnode' hmode => ?_)
      obtain rfl := Option.some.inj (hnode.symm.trans hnode')
      by_contra hrelstat
      exact hrefused.2 ⟨hmode, hrelstat⟩
  · exact ⟨true, _, rm_of_not_exists hexists, sub_start fs, fun p => .inl rfl, fun _ => .inl rfl⟩

/-! ### Both steps -/

/-- What has moved is what was at the old path before the first step. -/
theorem moved_of_rename (hsub : Sub fs s) (hlost : Lost k fs new s.tree)
    (hgone : s.tree = fs.tree ∨ ¬FSUtil.Exists (k.at new) new.comps s.tree)
    (htrue : (Posix.rename k fs.names s old new).1 = true) :
    Moved k fs old new (Posix.rename k fs.names s old new).2.tree := by
  rcases rename_cases fs.names s old new with hfalse | ⟨L, V, D, hwalk, hL, htarget, hmoves⟩
  · rw [hfalse] at htrue
    cases htrue
  refine ⟨L, V, D, walk_mono hsub.below hwalk, hsub.below.eq hL ▸ hL,
    target_mono hsub.below htarget, fun q => ?_⟩
  obtain heq | hnone := hgone
  · rcases hmoves with ⟨rfl, hrename⟩ | ⟨-, hrename⟩
    · rw [hrename]
      exact congrFun heq _
    · rw [hrename]
      exact (moved_append s.tree L D q).trans (congrFun heq _)
  -- there is nothing at the new path, and so the old one is not below it
  have hD : s.tree D = none := by
    by_contra hsome
    obtain ⟨V', hV'⟩ := walk_target htarget
    rw [if_neg hsome] at hV'
    exact hnone ⟨D, V', hV', hsome⟩
  rcases hmoves with ⟨rfl, -⟩ | ⟨hinto, hrename⟩
  · exact absurd hD hL
  rw [hrename]
  refine (moved_append s.tree L D q).trans ?_
  rcases hlost (L ++ q) with heq | ⟨-, L', V', hwalk', hpre⟩
  · exact heq
  obtain ⟨V₁, hV₁⟩ := walk_target (target_mono hsub.below htarget)
  have hLD : L' = D := by
    rw [show k.walk fs.tree new = some (L', V') from hwalk'] at hV₁
    split_ifs at hV₁
    exact (Prod.mk.inj (Option.some.inj hV₁)).1
  subst hLD
  rcases List.prefix_or_prefix_of_prefix hpre (List.prefix_append L q) with hbelow | habove
  · exact absurd (hsub.closed.none_below hD hbelow) hL
  · exact absurd habove hinto

/-- `Mv` and `Symlink` end. When they fail, nodes of the tree at the new path may be missing, and
nothing else has changed; when `Mv` succeeds, the tree that was at the old path is at the new
one. -/
theorem mv_symlink (k : MvKernel N) (fs : FileSystem N) (old new : Path N) :
    (∃ r s, mv k fs old new = some (r, s) ∧ (r = false → Lost k fs new s.tree) ∧
      (r = true → Moved k fs old new s.tree)) ∧
    ∃ r s, symlink k fs old new = some (r, s) ∧ (r = false → Lost k fs new s.tree) := by
  obtain ⟨r, s, hrm, hsub, hlost, hgone⟩ := rm_lost k fs new
  unfold mv symlink
  rw [hrm, Option.map_some, Option.map_some]
  cases r with
  | false => exact ⟨⟨false, s, rfl, fun _ => hlost, nofun⟩, false, s, rfl, fun _ => hlost⟩
  | true =>
    refine ⟨⟨_, _, rfl, fun hfalse => ?_, fun htrue => ?_⟩, _, _, rfl, fun hfalse => ?_⟩
    · show Lost k fs new (Posix.rename k fs.names s old new).2.tree
      rwa [rename_false hfalse]
    · exact moved_of_rename hsub hlost (hgone rfl) htrue
    · show Lost k fs new (Posix.symlink k s old new).2.tree
      rwa [symlink_false hfalse]

/-! ### A source that is missing -/

def logSystem : FileSystem String := singleSystem "log.txt" .regular

/-- Nothing is refused. -/
def permissiveMv : MvKernel String :=
  { permissive with rename := fun _ _ => true, symlink := fun _ => true }

/-- `Mv("backup.txt", "log.txt")` without a `backup.txt` -/
theorem not_safe_of_missing :
    (mv permissiveMv logSystem ⟨false, [.name "backup.txt"]⟩ ⟨false, [.name "log.txt"]⟩).map
        (fun r => (r.1, r.2.tree ["log.txt"])) = some (false, none) ∧
      ¬Safe permissiveMv logSystem ⟨false, [.name "backup.txt"]⟩ ⟨false, [.name "log.txt"]⟩ := by
  have hmv : (mv permissiveMv logSystem ⟨false, [.name "backup.txt"]⟩
      ⟨false, [.name "log.txt"]⟩).map (fun r => (r.1, r.2.tree ["log.txt"])) =
        some (false, none) := by
    decide
  refine ⟨hmv, ?_⟩
  rintro ⟨⟨r, s, hr, hkept, -⟩, -⟩
  rw [hr, Option.map_some] at hmv
  obtain ⟨rfl, hnone⟩ := Prod.mk.inj (Option.some.inj hmv)
  have hunder : permissiveMv.Under logSystem ⟨false, [.name "log.txt"]⟩ ["log.txt"] :=
    ⟨["log.txt"], [], by decide, List.prefix_rfl⟩
  have hsome := hkept rfl ["log.txt"] (.inr hunder)
  rw [show s.tree ["log.txt"] = none from hnone] at hsome
  exact absurd hsome (by decide)

end Muhui.FSUtil
