/-
  `FSUtil::Rm` and `FSUtil::Unlink` (`util.cc`) on a file tree.

  `Rm` takes for a directory whatever has the bit `S_IFDIR` in its mode, which sockets and block
  devices have as well, and takes a path for gone when `lstat` fails for whatever reason
  (`right_rm_iff`).

  The kernel may refuse each call at each location.  The recursion goes one level down each time,
  so the depth of the tree bounds it.  `rm_removes` says what a run does to the subtree at its path,
  and `rm_all` when it removes all of it.
-/
import Muhui.FileTree.Walk
import Mathlib.Data.Nat.Notation

namespace Muhui.FSUtil

open FileTree

/-! ### The kernel -/

/-- The mode of a node, without the permission bits. -/
def st_mode {N : Type} : Node N → ℕ
  | .fifo => 0o010000
  | .charDevice => 0o020000
  | .directory => 0o040000
  | .blockDevice => 0o060000
  | .regular => 0o100000
  | .symlink _ _ => 0o120000
  | .socket => 0o140000

def S_IFDIR : ℕ := 0o040000

theorem st_mode_directory {N : Type} : st_mode (.directory : Node N) &&& S_IFDIR ≠ 0 :=
  show 0o040000 &&& 0o040000 ≠ 0 by decide

theorem st_mode_symlink {N : Type} (absolute : Bool) (target : List (Comp N)) :
    st_mode (.symlink absolute target) &&& S_IFDIR = 0 := show 0o120000 &&& 0o040000 = 0 by decide

/-- A file system; `names` gives what `readdir` may list, in its order and with `.` and `..`. -/
structure FileSystem (N : Type) where
  tree : FileTree.Tree N
  names : List N → List (Comp N)
  depth : ℕ
  closed : Closed tree
  listed : ∀ p n, tree (p ++ [n]) ≠ none → .name n ∈ names p
  bounded : ∀ p, tree p ≠ none → p.length ≤ depth

/-- Where paths start, how many symbolic links are followed, and at which locations the calls are
let through: `lstat` in `Rm`, `relstat` for the second one in `Unlink`, and the others. -/
structure Kernel (N : Type) where
  cwd : List N
  links : ℕ
  lstat : List N → Bool
  relstat : List N → Bool
  opendir : List N → Bool
  unlink : List N → Bool
  rmdir : List N → Bool

/-- The tree, and the directories that have been opened. -/
structure State (N : Type) where
  tree : FileTree.Tree N
  entered : List (List N)

/-- The path ends in a name, as `unlink` and `rmdir` want it to.  A slash at its end is `.`, unless
it stands behind a directory. -/
def endsInName {N : Type} (path : List (Comp N)) : Bool :=
  match path.getLast? with
  | some (.name _) => true
  | _ => false

variable {N : Type} [DecidableEq N] (k : Kernel N) (names : List N → List (Comp N))

/-- `lstat`, which does not follow a symbolic link at the end of the path. -/
def Posix.lstat (permits : List N → Bool) (s : State N) (path : List (Comp N)) : Option (Node N) :=
  (walk s.tree k.links k.cwd path).bind fun r => if permits r.1 then s.tree r.1 else none

/-- The entries that `readdir` lists. -/
def Posix.readdir (t : FileTree.Tree N) (p : List N) : List (Comp N) :=
  (names p).filter fun
    | .name n => (t (p ++ [n])).isSome
    | _ => true

/-- `opendir`, which does follow it, and `readdir`. -/
def Posix.opendir (s : State N) (path : List (Comp N)) : Option (List (Comp N) × State N) :=
  (walk s.tree k.links k.cwd (path ++ [.here])).bind fun r =>
    if k.opendir r.1 then
      some (Posix.readdir names s.tree r.1, { s with entered := s.entered ++ [r.1] })
    else none

/-- `unlink` -/
def Posix.unlink (s : State N) (path : List (Comp N)) : Bool × State N :=
  match walk s.tree k.links k.cwd path with
  | none => (false, s)
  | some r =>
    if endsInName path ∧ s.tree r.1 ≠ some .directory ∧ k.unlink r.1 then
      (true, { s with tree := erase s.tree r.1 })
    else (false, s)

/-- `rmdir`, which wants a directory without entries. -/
def Posix.rmdir (s : State N) (path : List (Comp N)) : Bool × State N :=
  match walk s.tree k.links k.cwd path with
  | none => (false, s)
  | some r =>
    if endsInName path ∧ s.tree r.1 = some .directory ∧
        (∀ c ∈ Posix.readdir names s.tree r.1, c = .here ∨ c = .parent) ∧ k.rmdir r.1 then
      (true, { s with tree := erase s.tree r.1 })
    else (false, s)

/-! ### The code -/

/-- `FSUtil::Unlink` -/
def unlink (s : State N) (filename : List (Comp N)) (exist : Bool) : Bool × State N :=
  if !exist && (Posix.lstat k k.relstat s filename).isNone then (true, s)
  else Posix.unlink k s filename

/-- The body of the loop over the entries; `ret` is what the last of them returns. -/
def entry (rm : List (Comp N) → State N → Option (Bool × State N)) (path : List (Comp N))
    (ret : Bool × State N) (d_name : Comp N) : Option (Bool × State N) :=
  if d_name = .here ∨ d_name = .parent then some ret else rm (path ++ [d_name]) ret.2

/-- `FSUtil::Rm`; `none` says that the fuel is used up. -/
def rmFuel : ℕ → List (Comp N) → State N → Option (Bool × State N)
  | 0, _, _ => none
  | fuel + 1, path, s =>
    match Posix.lstat k k.lstat s path with
    | none => some (true, s)
    | some st =>
      if st_mode st &&& S_IFDIR = 0 then some (unlink k s path false)
      else
        match Posix.opendir k names s path with
        | none => some (false, s)
        | some (entries, s) =>
          (entries.foldlM (entry (rmFuel fuel) path) (true, s)).map fun r =>
            if (Posix.rmdir k names r.2 path).1 then (r.1, (Posix.rmdir k names r.2 path).2)
            else (false, (Posix.rmdir k names r.2 path).2)

/-- `FSUtil::Rm` -/
def rm (fs : FileSystem N) (path : List (Comp N)) : Option (Bool × State N) :=
  rmFuel k fs.names (fs.depth + 1) path { tree := fs.tree, entered := [] }

/-! ### What it is for -/

variable (fs : FileSystem N) (path : List (Comp N))

/-- The location is in the subtree at the path. -/
def Under (p : List N) : Prop :=
  ∃ L V, walk fs.tree k.links k.cwd path = some (L, V) ∧ L <+: p

/-- The calls that are needed to remove the subtree are let through. -/
def Permitted : Prop :=
  ∀ p node, Under k fs path p → fs.tree p = some node → endsInName path = true ∧
    if node = .directory then k.opendir p = true ∧ k.rmdir p = true else k.unlink p = true

/-- There is a node at the path. -/
def Exists (t : FileTree.Tree N) : Prop :=
  ∃ L V, walk t k.links k.cwd path = some (L, V) ∧ t L ≠ none

/-- Nothing outside the subtree is removed or opened; if the calls are let through all of it is
removed; and after `true` there is nothing at the path. -/
def Right : Prop :=
  ∃ r s, rm k fs path = some (r, s) ∧
    (∀ p, s.tree p ≠ fs.tree p → Under k fs path p) ∧ (∀ d ∈ s.entered, Under k fs path d) ∧
    (Permitted k fs path → r = true ∧ ∀ p, Under k fs path p → s.tree p = none) ∧
    (r = true → ¬Exists k path s.tree)

/-- The code comes to remove the node: `lstat` finds it, and what is no directory does not look like
one. -/
def Handled (p : List N) : Prop :=
  k.lstat p = true ∧ ∀ node, fs.tree p = some node → node ≠ .directory →
    st_mode node &&& S_IFDIR = 0 ∧ k.relstat p = true

/-- Among the locations that a path to `L` goes through, none is strictly below `L`. -/
def Clear (L : List N) (V : List (List N)) : Prop := ∀ v ∈ V, L <+: v → v = L

/-- The condition. Where the calls are let through, every node of the subtree is handled and the
path does not lead through the subtree; and in any case `lstat` finds the node at the path. -/
def Fit : Prop :=
  ∀ L V, walk fs.tree k.links k.cwd path = some (L, V) → fs.tree L ≠ none →
    (Permitted k fs path →
      (∀ p, L <+: p → fs.tree p ≠ none → Handled k fs p) ∧ Clear L V) ∧
    k.lstat L = true ∧
    ∀ node, fs.tree L = some node → st_mode node &&& S_IFDIR = 0 → k.relstat L = true

/-! ### Calls -/

/-- A state on the way: nodes have only been removed. -/
structure Sub (fs : FileSystem N) (s : State N) : Prop where
  below : Below s.tree fs.tree
  closed : Closed s.tree

/-- What happens to the subtree at a location: nodes that are handled are removed from it, and only
its directories are opened. -/
structure Frame (L : List N) (s s' : State N) : Prop where
  sub : Sub fs s'
  removed : ∀ p, s'.tree p = s.tree p ∨ s'.tree p = none ∧ L <+: p ∧ Handled k fs p
  entered : ∀ d ∈ s'.entered, d ∈ s.entered ∨ L <+: d

/-- A call on a path to `L` has failed, or has removed the node there, which has no entries. -/
def Erases (L : List N) (V : List (List N)) (s : State N) (r : Bool × State N) : Prop :=
  r = (false, s) ∨ r = (true, { s with tree := erase s.tree L }) ∧
    walk s.tree k.links k.cwd path = some (L, V) ∧ ∀ n, s.tree (L ++ [n]) = none

variable {k fs path} {s s' : State N} {n : N} {L : List N} {V : List (List N)} {fuel : ℕ}
  {r : Bool × State N}

omit [DecidableEq N] in
theorem Frame.refl (h : Sub fs s) : Frame k fs L s s :=
  ⟨h, fun _ => .inl rfl, fun _ hd => .inl hd⟩

omit [DecidableEq N] in
theorem Frame.trans {s₁ s₂ s₃ : State N} (h : Frame k fs L s₁ s₂) (h' : Frame k fs L s₂ s₃) :
    Frame k fs L s₁ s₃ := by
  refine ⟨h'.sub, fun p => ?_, fun d hd => ?_⟩
  · rcases h'.removed p with heq | hremoved
    · rw [heq]
      exact h.removed p
    · exact .inr hremoved
  · rcases h'.entered d hd with hd | hd
    · exact h.entered d hd
    · exact .inr hd

omit [DecidableEq N] in
/-- From an entry to its directory. -/
theorem Frame.up (h : Frame k fs (L ++ [n]) s s') : Frame k fs L s s' :=
  ⟨h.sub,
    fun p => (h.removed p).imp_right fun hp =>
      ⟨hp.1, (List.prefix_append _ _).trans hp.2.1, hp.2.2⟩,
    fun d hd => (h.entered d hd).imp_right fun hd => (List.prefix_append _ _).trans hd⟩

omit [DecidableEq N] in
/-- What has been removed does not come back. -/
theorem Frame.none (h : Frame k fs L s s') {p : List N} (hp : s.tree p = none) :
    s'.tree p = none := by
  rcases h.removed p with heq | ⟨hnone, -⟩
  · rw [heq, hp]
  · exact hnone

omit [DecidableEq N] in
theorem Frame.outside (h : Frame k fs L s s') {p : List N} (hp : ¬L <+: p) :
    s'.tree p = s.tree p := (h.removed p).resolve_right fun hr => hp hr.2.1

omit [DecidableEq N] in
theorem not_prefix_entry (L : List N) (n : N) : ¬L ++ [n] <+: L := fun h => by
  have hlength := h.length_le
  rw [List.length_append, List.length_singleton] at hlength
  omega

theorem Erases.frame (h : Erases k path L V s r) (hsub : Sub fs s)
    (hhandled : r.1 = true → Handled k fs L) : Frame k fs L s r.2 := by
  rcases h with rfl | ⟨rfl, -, hempty⟩
  · exact .refl hsub
  refine ⟨⟨(below_erase _ _).trans hsub.below, hsub.closed.erase hempty⟩, fun p => ?_,
    fun _ hd => .inl hd⟩
  by_cases hp : p = L
  · subst hp
    exact .inr ⟨erase_self _ _, List.prefix_rfl, hhandled rfl⟩
  · exact .inl (erase_of_ne hp)

theorem Erases.gone (h : Erases k path L V s r) (htrue : r.1 = true) : r.2.tree L = none := by
  rcases h with rfl | ⟨rfl, -⟩
  · cases htrue
  · exact erase_self _ _

/-- The walk to a node without entries does not go through anything below it. -/
theorem Erases.clear (h : Erases k path L V s r) (hsub : Sub fs s)
    (hgone : r.2.tree L ≠ s.tree L) : Clear L V := by
  rcases h with rfl | ⟨rfl, hwalk, hempty⟩
  · exact absurd rfl hgone
  intro v hv hpre
  by_contra hne
  obtain ⟨n, hn, -⟩ := hsub.closed.entry (walk_exists hwalk v hv) hpre hne
  exact hn (hempty n)

omit [DecidableEq N] in
theorem mem_readdir {names : List N → List (Comp N)} {t : FileTree.Tree N} :
    Comp.name n ∈ Posix.readdir names t L ↔ Comp.name n ∈ names L ∧ t (L ++ [n]) ≠ none := by
  rw [Posix.readdir, List.mem_filter, Option.isSome_iff_ne_none]

section Path

variable (hwalk : walk fs.tree k.links k.cwd path = some (L, V)) (hsub : Sub fs s)
include hwalk hsub

omit [DecidableEq N] in
/-- The path leads to the same location or nowhere. -/
theorem walk_eq_or : walk s.tree k.links k.cwd path = none ∨
    walk s.tree k.links k.cwd path = some (L, V) := by
  cases h : walk s.tree k.links k.cwd path with
  | none => exact .inl rfl
  | some r => exact .inr ((walk_mono hsub.below h).symm.trans hwalk)

omit [DecidableEq N] in
theorem not_exists (hnone : s.tree L = none) : ¬Exists k path s.tree := by
  rintro ⟨L', V', h, hsome⟩
  rcases walk_eq_or hwalk hsub with hwalk' | hwalk'
  · cases h.symm.trans hwalk'
  · obtain ⟨rfl, -⟩ := Prod.mk.inj (Option.some.inj (h.symm.trans hwalk'))
    exact hsome hnone

omit [DecidableEq N] in
theorem lstat_eq_none {permits : List N → Bool} (hpermits : permits L = true)
    (h : Posix.lstat k permits s path = none) : ¬Exists k path s.tree := by
  unfold Posix.lstat at h
  rcases walk_eq_or hwalk hsub with hnone | hsome
  · rintro ⟨L', V', hwalk', -⟩
    cases hwalk'.symm.trans hnone
  · rw [hsome, Option.bind_some, if_pos hpermits] at h
    exact not_exists hwalk hsub h

omit [DecidableEq N] in
theorem lstat_eq_some {permits : List N → Bool} {node : Node N}
    (h : Posix.lstat k permits s path = some node) :
    walk s.tree k.links k.cwd path = some (L, V) ∧ permits L = true ∧ s.tree L = some node := by
  unfold Posix.lstat at h
  rcases walk_eq_or hwalk hsub with hnone | hsome
  · rw [hnone] at h
    cases h
  · rw [hsome, Option.bind_some] at h
    dsimp only at h
    split_ifs at h with hpermits
    exact ⟨hsome, hpermits, h⟩

theorem unlink_erases : Erases k path L V s (Posix.unlink k s path) := by
  unfold Posix.unlink
  rcases walk_eq_or hwalk hsub with hnone | hsome
  · rw [hnone]
    exact .inl rfl
  rw [hsome]
  dsimp only
  split_ifs with h
  · refine .inr ⟨rfl, hsome, fun n => ?_⟩
    by_contra hn
    exact h.2.1 (hsub.closed _ _ hn)
  · exact .inl rfl

omit hwalk [DecidableEq N] in
/-- Without entries, nothing is in the way of `rmdir`. -/
theorem readdir_iff : (∀ c ∈ Posix.readdir fs.names s.tree L, c = .here ∨ c = .parent) ↔
    ∀ n, s.tree (L ++ [n]) = none := by
  constructor
  · intro h n
    by_contra hn
    have hlisted := fs.listed L n (hsub.below.eq hn ▸ hn)
    rcases h _ (mem_readdir.mpr ⟨hlisted, hn⟩) with hc | hc <;> cases hc
  · intro h c hc
    cases c with
    | name n => exact absurd (h n) (mem_readdir.mp hc).2
    | here => exact .inl rfl
    | parent => exact .inr rfl

theorem rmdir_erases : Erases k path L V s (Posix.rmdir k fs.names s path) := by
  unfold Posix.rmdir
  rcases walk_eq_or hwalk hsub with hnone | hsome
  · rw [hnone]
    exact .inl rfl
  rw [hsome]
  dsimp only
  split_ifs with h
  · exact .inr ⟨rfl, hsome, (readdir_iff hsub).mp h.2.2.1⟩
  · exact .inl rfl

theorem rmdir_directory (h : (Posix.rmdir k fs.names s path).1 = true) :
    s.tree L = some .directory := by
  unfold Posix.rmdir at h
  rcases walk_eq_or hwalk hsub with hnone | hsome
  · rw [hnone] at h
    cases h
  rw [hsome] at h
  dsimp only at h
  split_ifs at h with hdir
  exact hdir.2.1

omit hwalk [DecidableEq N] in
/-- What looks like a directory is no symbolic link, so that what is opened is at the path. -/
theorem opendir_eq_some {node : Node N} {entries : List (Comp N)} (hlstat : s.tree L = some node)
    (hmode : st_mode node &&& S_IFDIR ≠ 0) (hs : walk s.tree k.links k.cwd path = some (L, V))
    (h : Posix.opendir k fs.names s path = some (entries, s')) :
    entries = Posix.readdir fs.names s.tree L ∧ s'.tree = s.tree ∧ Frame k fs L s s' := by
  have hlink (absolute : Bool) (target : List (Comp N)) :
      s.tree L ≠ some (.symlink absolute target) := by
    intro heq
    obtain rfl := Option.some.inj (hlstat.symm.trans heq)
    exact hmode (st_mode_symlink absolute target)
  obtain ⟨r, hr, hopen⟩ := Option.bind_eq_some_iff.mp h
  split_ifs at hopen
  obtain ⟨rfl, rfl⟩ := Prod.mk.inj (Option.some.inj hopen)
  rw [walk_here hs hlink hr]
  refine ⟨rfl, rfl, ⟨hsub.below, hsub.closed⟩, fun _ => .inl rfl, fun d hd => ?_⟩
  refine (List.mem_append.mp hd).imp_right fun hd => ?_
  rw [List.mem_singleton.mp hd]

end Path

/-! ### Runs -/

/-- A loop keeps an invariant, which may speak of the elements that are done. -/
theorem foldlM_inv {A S : Type} {f : S → A → Option S} {todo : List A} (I : List A → S → Prop)
    (hstep : ∀ done a ret, a ∈ todo → I done ret →
      ∃ ret', f ret a = some ret' ∧ I (done ++ [a]) ret')
    (done : List A) (ret : S) (h : I done ret) :
    ∃ ret', todo.foldlM f ret = some ret' ∧ I (done ++ todo) ret' := by
  induction todo generalizing done ret with
  | nil => exact ⟨ret, rfl, by rwa [List.append_nil]⟩
  | cons a todo ih =>
    obtain ⟨ret₁, hret₁, h₁⟩ := hstep done a ret List.mem_cons_self h
    obtain ⟨ret₂, hret₂, h₂⟩ :=
      ih (fun done a ret ha => hstep done a ret (List.mem_cons_of_mem _ ha)) _ _ h₁
    refine ⟨ret₂, ?_, by rwa [List.append_assoc, List.singleton_append] at h₂⟩
    rw [List.foldlM_cons, hret₁]
    exact hret₂

/-- What `Rm` does on a path to `L`. -/
structure Removes (k : Kernel N) (fs : FileSystem N) (path : List (Comp N)) (L : List N)
    (V : List (List N)) (s : State N) (r : Bool × State N) : Prop where
  frame : Frame k fs L s r.2
  gone : r.1 = true → k.lstat L = true →
    (∀ node, fs.tree L = some node → st_mode node &&& S_IFDIR = 0 → k.relstat L = true) →
    ¬Exists k path r.2.tree
  clear : r.2.tree L ≠ s.tree L → Clear L V

/-- A leaf of the tree. -/
theorem unlink_removes (hwalk : walk fs.tree k.links k.cwd path = some (L, V)) (hsub : Sub fs s)
    {node : Node N} (hnode : s.tree L = some node) (hlstat : k.lstat L = true)
    (hmode : st_mode node &&& S_IFDIR = 0) :
    Removes k fs path L V s (unlink k s path false) := by
  have hnode' := hsub.below _ _ hnode
  unfold unlink
  cases hrelstat : Posix.lstat k k.relstat s path with
  | none =>
    exact ⟨.refl hsub, fun _ _ hrel => lstat_eq_none hwalk hsub (hrel node hnode' hmode) hrelstat,
      fun hgone => absurd rfl hgone⟩
  | some node' =>
    obtain ⟨-, hrel, -⟩ := lstat_eq_some hwalk hsub hrelstat
    have herases := unlink_erases hwalk hsub
    have hhandled : Handled k fs L := by
      refine ⟨hlstat, fun node'' hnode'' _ => ?_⟩
      obtain rfl := Option.some.inj (hnode''.symm.trans hnode')
      exact ⟨hmode, hrel⟩
    have hframe := herases.frame hsub fun _ => hhandled
    exact ⟨hframe, fun htrue _ _ => not_exists hwalk hframe.sub (herases.gone htrue),
      herases.clear hsub⟩

/-- The end of `Rm` on a directory, when its entries have been dealt with. -/
theorem rmdir_removes (hwalk : walk fs.tree k.links k.cwd path = some (L, V))
    (hlstat : k.lstat L = true) (hframe : Frame k fs L s r.2) (hsame : r.2.tree L = s.tree L) :
    Removes k fs path L V s
      (if (Posix.rmdir k fs.names r.2 path).1 then (r.1, (Posix.rmdir k fs.names r.2 path).2)
        else (false, (Posix.rmdir k fs.names r.2 path).2)) := by
  have hsub := hframe.sub
  have herases := rmdir_erases hwalk hsub
  have hhandled (h : (Posix.rmdir k fs.names r.2 path).1 = true) : Handled k fs L := by
    refine ⟨hlstat, fun node hnode hne => ?_⟩
    have hdir := hsub.below _ _ (rmdir_directory hwalk hsub h)
    exact absurd (Option.some.inj (hnode.symm.trans hdir)) hne
  have hrmdir := herases.frame hsub hhandled
  have hclear (hgone : (Posix.rmdir k fs.names r.2 path).2.tree L ≠ s.tree L) : Clear L V :=
    herases.clear hsub (hsame ▸ hgone)
  split_ifs with h
  · exact ⟨hframe.trans hrmdir, fun _ _ _ => not_exists hwalk hrmdir.sub (herases.gone h), hclear⟩
  · exact ⟨hframe.trans hrmdir, nofun, hclear⟩

/-- A run of `Rm` ends, and does what it does in the subtree at its path. -/
theorem rm_removes (hwalk : walk fs.tree k.links k.cwd path = some (L, V)) (hL : fs.tree L ≠ none)
    (hsub : Sub fs s) (hfuel : fs.depth < L.length + fuel) :
    ∃ r, rmFuel k fs.names fuel path s = some r ∧ Removes k fs path L V s r := by
  induction fuel generalizing path L V s with
  | zero =>
    have hbound := fs.bounded L hL
    omega
  | succ fuel ih =>
    rw [rmFuel]
    cases hlstat : Posix.lstat k k.lstat s path with
    | none =>
      exact ⟨_, rfl, .refl hsub, fun _ hpermits _ => lstat_eq_none hwalk hsub hpermits hlstat,
        fun hgone => absurd rfl hgone⟩
    | some st =>
      obtain ⟨hs, hpermits, hnode⟩ := lstat_eq_some hwalk hsub hlstat
      dsimp only
      split_ifs with hmode
      · exact ⟨_, rfl, unlink_removes hwalk hsub hnode hpermits hmode⟩
      cases hopen : Posix.opendir k fs.names s path with
      | none =>
        exact ⟨_, rfl, .refl hsub, nofun, fun hgone => absurd rfl hgone⟩
      | some opened =>
        obtain ⟨entries, s₁⟩ := opened
        obtain ⟨rfl, htree, hopened⟩ := opendir_eq_some hsub hnode hmode hs hopen
        -- an entry changes nothing at `L`
        have hstep (_ : List (Comp N)) (c) (ret : Bool × State N)
            (hc : c ∈ Posix.readdir fs.names s.tree L)
            (hret : Frame k fs L s ret.2 ∧ ret.2.tree L = s.tree L) :
            ∃ ret', entry (rmFuel k fs.names fuel) path ret c = some ret' ∧
              Frame k fs L s ret'.2 ∧ ret'.2.tree L = s.tree L := by
          obtain ⟨hframe, hsame⟩ := hret
          unfold entry
          cases c with
          | here => exact ⟨ret, if_pos (.inl rfl), hframe, hsame⟩
          | parent => exact ⟨ret, if_pos (.inr rfl), hframe, hsame⟩
          | name n =>
            have hn := (mem_readdir.mp hc).2
            have hentry : fs.tree (L ++ [n]) ≠ none := hsub.below.eq hn ▸ hn
            obtain ⟨V', -, hV'⟩ := walk_entry hwalk (fs.closed _ _ hentry)
            have hlength : fs.depth < (L ++ [n]).length + fuel := by
              rw [List.length_append, List.length_singleton]
              omega
            obtain ⟨ret', hret', hremoves⟩ :=
              ih ((hV' n).trans (if_neg hentry)) hentry hframe.sub hlength
            refine ⟨ret', (if_neg nofun).trans hret', hframe.trans hremoves.frame.up, ?_⟩
            rw [hremoves.frame.outside (not_prefix_entry L n), hsame]
        obtain ⟨r, hr, hframe, hsame⟩ := foldlM_inv
          (fun (_ : List (Comp N)) ret => Frame k fs L s ret.2 ∧ ret.2.tree L = s.tree L) hstep []
          (true, s₁) ⟨hopened, congrFun htree L⟩
        dsimp only
        rw [hr]
        exact ⟨_, rfl, rmdir_removes hwalk hpermits hframe hsame⟩

/-! ### Runs that remove everything -/

/-- All nodes from a location on are handled, and their calls are let through. -/
def AllHandled (k : Kernel N) (fs : FileSystem N) (L : List N) : Prop :=
  ∀ p node, L <+: p → fs.tree p = some node → Handled k fs p ∧
    if node = .directory then k.opendir p = true ∧ k.rmdir p = true else k.unlink p = true

omit [DecidableEq N] in
theorem endsInName_append (path : List (Comp N)) (n : N) :
    endsInName (path ++ [.name n]) = true := by
  rw [endsInName, List.getLast?_concat]

theorem unlink_all (hs : walk s.tree k.links k.cwd path = some (L, V)) (hsub : Sub fs s)
    (hname : endsInName path = true) (hall : AllHandled k fs L) {node : Node N}
    (hnode : s.tree L = some node) (hmode : st_mode node &&& S_IFDIR = 0) :
    (unlink k s path false).1 = true ∧ ∀ p, L <+: p → (unlink k s path false).2.tree p = none := by
  have hdir : node ≠ .directory := by
    rintro rfl
    exact st_mode_directory hmode
  have hnode' := hsub.below _ _ hnode
  obtain ⟨hhandled, hcalls⟩ := hall L node List.prefix_rfl hnode'
  rw [if_neg hdir] at hcalls
  have hrelstat : Posix.lstat k k.relstat s path = some node := by
    rw [Posix.lstat, hs, Option.bind_some, if_pos (hhandled.2 node hnode' hdir).2, hnode]
  have hleaf : s.tree L ≠ some .directory := fun heq =>
    hdir (Option.some.inj (hnode.symm.trans heq))
  have hunlink : Posix.unlink k s path = (true, { s with tree := erase s.tree L }) := by
    unfold Posix.unlink
    rw [hs]
    exact if_pos ⟨hname, hleaf, hcalls⟩
  have hunlink' : unlink k s path false = (true, { s with tree := erase s.tree L }) := by
    rw [unlink, hrelstat]
    exact hunlink
  have hempty (n : N) : s.tree (L ++ [n]) = none := by
    by_contra hn
    exact hleaf (hsub.closed _ _ hn)
  rw [hunlink']
  exact ⟨rfl, fun p hp => hsub.closed.erase_below hempty hp⟩

theorem rmdir_all (hs : walk s.tree k.links k.cwd path = some (L, V)) (hsub : Sub fs s)
    (hname : endsInName path = true) (hdir : s.tree L = some .directory) (hrmdir : k.rmdir L = true)
    (hempty : ∀ n, s.tree (L ++ [n]) = none) :
    (Posix.rmdir k fs.names s path).1 = true ∧
      ∀ p, L <+: p → (Posix.rmdir k fs.names s path).2.tree p = none := by
  have hrmdir : Posix.rmdir k fs.names s path = (true, { s with tree := erase s.tree L }) := by
    unfold Posix.rmdir
    rw [hs]
    exact if_pos ⟨hname, hdir, (readdir_iff hsub).mpr hempty, hrmdir⟩
  rw [hrmdir]
  exact ⟨rfl, fun p hp => hsub.closed.erase_below hempty hp⟩

/-- What the loop over the entries of a directory has done: the entries that are done are gone, and
nothing but entries has been touched. -/
structure Loop (k : Kernel N) (fs : FileSystem N) (L : List N) (s : State N) (done : List (Comp N))
    (ret : Bool × State N) : Prop where
  ok : ret.1 = true
  frame : Frame k fs L s ret.2
  rest : ∀ p, (∀ n, ¬L ++ [n] <+: p) → ret.2.tree p = s.tree p
  gone : ∀ n, Comp.name n ∈ done → ∀ p, L ++ [n] <+: p → ret.2.tree p = none

omit [DecidableEq N] in
theorem Loop.skip {done : List (Comp N)} {c : Comp N} (h : Loop k fs L s done r)
    (hc : ∀ n, c ≠ .name n) : Loop k fs L s (done ++ [c]) r := by
  refine ⟨h.ok, h.frame, h.rest, fun n hn => h.gone n ?_⟩
  exact (List.mem_append.mp hn).resolve_right fun hn => hc n (List.mem_singleton.mp hn).symm

omit [DecidableEq N] in
theorem Loop.next {done : List (Comp N)} (h : Loop k fs L s done r)
    (hframe : Frame k fs (L ++ [n]) r.2 s') (hgone : ∀ p, L ++ [n] <+: p → s'.tree p = none) :
    Loop k fs L s (done ++ [.name n]) (true, s') := by
  refine ⟨rfl, h.frame.trans hframe.up, fun p hp => ?_, fun m hm p hp => ?_⟩
  · rw [hframe.outside (hp n), h.rest p hp]
  · rcases List.mem_append.mp hm with hm | hm
    · exact hframe.none (h.gone m hm p hp)
    · obtain rfl := Comp.name.inj (List.mem_singleton.mp hm)
      exact hgone p hp

section Entries

omit [DecidableEq N] in
/-- The way to a directory is not below its entries. -/
theorem Clear.entry {V' : List (List N)} (hclear : Clear L V) (hV' : ∀ v ∈ V', v ∈ V ∨ v = L)
    (n : N) : Clear (L ++ [n]) V' := by
  intro v hv hpre
  have hpre' : L <+: v := (List.prefix_append _ _).trans hpre
  have hv' : v = L := (hV' v hv).elim (fun hv => hclear v hv hpre') id
  exact absurd (hv' ▸ hpre) (not_prefix_entry L n)

omit [DecidableEq N] in
/-- The way to a directory does not change while its entries are dealt with. -/
theorem Loop.way {done : List (Comp N)} (h : Loop k fs L s done r) (hclear : Clear L V)
    (hs : walk s.tree k.links k.cwd path = some (L, V)) :
    walk r.2.tree k.links k.cwd path = some (L, V) := by
  refine walk_congr hs fun v hv => h.rest v fun n hn => ?_
  have hpre : L <+: v := (List.prefix_append _ _).trans hn
  have hv' : v = L := (List.mem_cons.mp hv).elim id fun hv => hclear v hv hpre
  exact not_prefix_entry L n (hv' ▸ hn)

omit [DecidableEq N] in
theorem Loop.directory {done : List (Comp N)} (h : Loop k fs L s done r)
    (hdir : s.tree L = some .directory) : r.2.tree L = some .directory :=
  (h.rest L (not_prefix_entry L)).trans hdir

omit [DecidableEq N] in
/-- At the end of the loop the directory is empty. -/
theorem Loop.empty (h : Loop k fs L s (Posix.readdir fs.names s.tree L) r) (hsub : Sub fs s)
    (n : N) :
    r.2.tree (L ++ [n]) = none := by
  by_cases hn : s.tree (L ++ [n]) = none
  · exact h.frame.none hn
  · have hlisted := fs.listed L n (hsub.below.eq hn ▸ hn)
    exact h.gone n (mem_readdir.mpr ⟨hlisted, hn⟩) _ List.prefix_rfl

theorem rm_none {names : List N → List (Comp N)} (h : walk s.tree k.links k.cwd path = none)
    (hr : rmFuel k names fuel path s = some r) : r = (true, s) := by
  cases fuel with
  | zero => cases hr
  | succ fuel =>
    rw [rmFuel, Posix.lstat, h] at hr
    exact (Option.some.inj hr).symm

/-- With this fuel, `Rm` removes everything from `L` on, if it is all handled and no location on the
way is strictly below `L`. -/
def RemovesAll (k : Kernel N) (fs : FileSystem N) (fuel : ℕ) : Prop :=
  ∀ {path : List (Comp N)} {L : List N} {V : List (List N)} {s : State N},
    walk s.tree k.links k.cwd path = some (L, V) → s.tree L ≠ none → Sub fs s →
    fs.depth < L.length + fuel → endsInName path = true → AllHandled k fs L → Clear L V →
    ∃ s', rmFuel k fs.names fuel path s = some (true, s') ∧ ∀ p, L <+: p → s'.tree p = none

/-- One entry of a directory. -/
theorem Loop.entry (ih : RemovesAll k fs fuel) (hs : walk s.tree k.links k.cwd path = some (L, V))
    (hdir : s.tree L = some .directory) (hsub : Sub fs s)
    (hfuel : fs.depth < L.length + (fuel + 1)) (hall : AllHandled k fs L) (hclear : Clear L V)
    (done : List (Comp N)) (c : Comp N) (ret : Bool × State N)
    (hc : c ∈ Posix.readdir fs.names s.tree L) (hloop : Loop k fs L s done ret) :
    ∃ ret', entry (rmFuel k fs.names fuel) path ret c = some ret' ∧
      Loop k fs L s (done ++ [c]) ret' := by
  unfold FSUtil.entry
  cases c with
  | here => exact ⟨ret, if_pos (.inl rfl), hloop.skip nofun⟩
  | parent => exact ⟨ret, if_pos (.inr rfl), hloop.skip nofun⟩
  | name n =>
    rw [if_neg nofun]
    have hn := (mem_readdir.mp hc).2
    have hentry : fs.tree (L ++ [n]) ≠ none := hsub.below.eq hn ▸ hn
    have hlength : fs.depth < (L ++ [n]).length + fuel := by
      rw [List.length_append, List.length_singleton]
      omega
    obtain ⟨V₂, -, hwalk'⟩ := walk_entry (walk_mono hsub.below hs) (hsub.below _ _ hdir)
    obtain ⟨r, hr, hremoves⟩ := rm_removes ((hwalk' n).trans (if_neg hentry)) hentry
      hloop.frame.sub hlength
    obtain ⟨V₃, hV₃, hwalk⟩ := walk_entry (hloop.way hclear hs) (hloop.directory hdir)
    by_cases hthere : ret.2.tree (L ++ [n]) = none
    · -- it has gone with another entry
      obtain rfl := rm_none ((hwalk n).trans (if_pos hthere)) hr
      exact ⟨_, hr, hloop.next hremoves.frame
        fun p hp => hloop.frame.sub.closed.none_below hthere hp⟩
    · have hall' : AllHandled k fs (L ++ [n]) := fun p node hp =>
        hall p node ((List.prefix_append _ _).trans hp)
      obtain ⟨s', hs', hgone⟩ := ih ((hwalk n).trans (if_neg hthere)) hthere hloop.frame.sub
        hlength (endsInName_append path n) hall' (hclear.entry hV₃ n)
      obtain rfl := Option.some.inj (hr.symm.trans hs')
      exact ⟨_, hs', hloop.next hremoves.frame hgone⟩

end Entries

theorem rm_all (fuel : ℕ) : RemovesAll k fs fuel := by
  induction fuel with
  | zero =>
    intro path L V s _ hL hsub hfuel _ _ _
    have hbound := fs.bounded L (hsub.below.eq hL ▸ hL)
    omega
  | succ fuel ih =>
    intro path L V s hs hL hsub hfuel hname hall hclear
    obtain ⟨node, hnode⟩ := Option.ne_none_iff_exists'.mp hL
    have hnode' := hsub.below _ _ hnode
    obtain ⟨hhandled, hcalls⟩ := hall L node List.prefix_rfl hnode'
    have hlstat : Posix.lstat k k.lstat s path = some node := by
      rw [Posix.lstat, hs, Option.bind_some, if_pos hhandled.1, hnode]
    rw [rmFuel, hlstat]
    dsimp only
    split_ifs with hmode
    · obtain ⟨htrue, hgone⟩ := unlink_all hs hsub hname hall hnode hmode
      exact ⟨_, congrArg some (Prod.ext htrue rfl), hgone⟩
    obtain rfl : node = .directory := by
      by_contra hdir
      exact hmode (hhandled.2 node hnode' hdir).1
    rw [if_pos rfl] at hcalls
    obtain ⟨V₁, hV₁⟩ := walk_here_directory hs hnode
    have hopen : Posix.opendir k fs.names s path =
        some (Posix.readdir fs.names s.tree L, { s with entered := s.entered ++ [L] }) := by
      rw [Posix.opendir, hV₁, Option.bind_some]
      exact if_pos hcalls.1
    obtain ⟨-, -, hopened⟩ := opendir_eq_some hsub hnode hmode hs hopen
    have hstep := Loop.entry ih hs hnode hsub hfuel hall hclear
    obtain ⟨r, hr, hloop⟩ := foldlM_inv (Loop k fs L s) hstep []
      (true, { s with entered := s.entered ++ [L] }) ⟨rfl, hopened, fun _ _ => rfl, nofun⟩
    obtain ⟨htrue, hgone⟩ := rmdir_all (hloop.way hclear hs) hloop.frame.sub hname
      (hloop.directory hnode) hcalls.2 (hloop.empty hsub)
    rw [hopen]
    dsimp only
    rw [hr, Option.map_some, if_pos htrue, hloop.ok]
    exact ⟨_, rfl, hgone⟩

/-! ### The condition -/

theorem rm_of_not_exists {names : List N → List (Comp N)} (h : ¬Exists k path s.tree) :
    rmFuel k names (fuel + 1) path s = some (true, s) := by
  have hlstat : Posix.lstat k k.lstat s path = none := by
    unfold Posix.lstat
    cases hwalk : walk s.tree k.links k.cwd path with
    | none => rfl
    | some r =>
      rw [Option.bind_some]
      split_ifs
      · by_contra hsome
        exact h ⟨r.1, r.2, hwalk, hsome⟩
      · rfl
  rw [rmFuel, hlstat]

/-- A node that `lstat` does not find is taken for one that is not there. -/
theorem rm_of_refused {names : List N → List (Comp N)} {node : Node N}
    (hs : walk s.tree k.links k.cwd path = some (L, V)) (hnode : s.tree L = some node)
    (h : k.lstat L ≠ true ∨ st_mode node &&& S_IFDIR = 0 ∧ k.relstat L ≠ true) :
    rmFuel k names (fuel + 1) path s = some (true, s) := by
  have hrefused {permits : List N → Bool} (hpermits : permits L ≠ true) :
      Posix.lstat k permits s path = none := by
    rw [Posix.lstat, hs, Option.bind_some, if_neg hpermits]
  by_cases hpermits : k.lstat L = true
  · obtain ⟨hmode, hrelstat⟩ := h.resolve_left fun hne => hne hpermits
    have hlstat : Posix.lstat k k.lstat s path = some node := by
      rw [Posix.lstat, hs, Option.bind_some, if_pos hpermits, hnode]
    rw [rmFuel, hlstat]
    dsimp only
    rw [if_pos hmode, unlink, hrefused hrelstat]
    rfl
  · rw [rmFuel, hrefused hpermits]

omit [DecidableEq N] in
theorem sub_start (fs : FileSystem N) : Sub fs { tree := fs.tree, entered := [] } :=
  ⟨.refl _, fs.closed⟩

theorem fit_of_right (h : Right k fs path) : Fit k fs path := by
  obtain ⟨r, s, hr, -, -, hall, hgone⟩ := h
  intro L V hwalk hL
  have hfuel : fs.depth < L.length + (fs.depth + 1) := Nat.lt_add_left _ (Nat.lt_succ_self _)
  obtain ⟨_, hr', hremoves⟩ := rm_removes hwalk hL (sub_start fs) hfuel
  obtain rfl := Option.some.inj (hr'.symm.trans hr)
  have hstays (h : rmFuel k fs.names (fs.depth + 1) path { tree := fs.tree, entered := [] } =
      some (true, { tree := fs.tree, entered := [] })) : False := by
    obtain ⟨rfl, rfl⟩ := Prod.mk.inj (Option.some.inj (hr.symm.trans h))
    exact hgone rfl ⟨L, V, hwalk, hL⟩
  refine ⟨fun hpermitted => ?_, ?_, fun node hnode hmode => ?_⟩
  · obtain ⟨-, hnone⟩ := hall hpermitted
    refine ⟨fun p hp hsome => ?_, hremoves.clear ?_⟩
    · rcases hremoves.frame.removed p with heq | ⟨-, -, hhandled⟩
      · exact absurd (heq.symm.trans (hnone p ⟨L, V, hwalk, hp⟩)) hsome
      · exact hhandled
    · rw [hnone L ⟨L, V, hwalk, List.prefix_rfl⟩]
      exact hL.symm
  · obtain ⟨node, hnode⟩ := Option.ne_none_iff_exists'.mp hL
    by_contra hlstat
    exact hstays (rm_of_refused hwalk hnode (.inl hlstat))
  · by_contra hrelstat
    exact hstays (rm_of_refused hwalk hnode (.inr ⟨hmode, hrelstat⟩))

theorem right_of_not_exists (h : ¬Exists k path fs.tree) : Right k fs path := by
  refine ⟨true, _, rm_of_not_exists h, fun p hp => absurd rfl hp, nofun, fun _ => ⟨rfl, ?_⟩,
    fun _ => h⟩
  rintro p ⟨L, V, hwalk, hp⟩
  by_contra hsome
  exact h ⟨L, V, hwalk, fun hL => hsome (fs.closed.none_below hL hp)⟩

theorem right_of_fit (h : Fit k fs path) : Right k fs path := by
  by_cases hexists : Exists k path fs.tree
  · obtain ⟨L, V, hwalk, hL⟩ := hexists
    obtain ⟨hall, hlstat, hrelstat⟩ := h L V hwalk hL
    have hfuel : fs.depth < L.length + (fs.depth + 1) := Nat.lt_add_left _ (Nat.lt_succ_self _)
    obtain ⟨⟨r, s⟩, hr, hremoves⟩ := rm_removes hwalk hL (sub_start fs) hfuel
    refine ⟨r, s, hr, fun p hp => ?_, fun d hd => ?_, fun hpermitted => ?_,
      fun htrue => hremoves.gone htrue hlstat hrelstat⟩
    · exact ⟨L, V, hwalk, ((hremoves.frame.removed p).resolve_left hp).2.1⟩
    · exact ⟨L, V, hwalk, (hremoves.frame.entered d hd).resolve_left nofun⟩
    · obtain ⟨hhandled, hclear⟩ := hall hpermitted
      obtain ⟨node, hnode⟩ := Option.ne_none_iff_exists'.mp hL
      have hname := (hpermitted L node ⟨L, V, hwalk, List.prefix_rfl⟩ hnode).1
      have hall' : AllHandled k fs L := fun p node hp hnode =>
        ⟨hhandled p hp (by rw [hnode]; exact Option.some_ne_none node),
          (hpermitted p node ⟨L, V, hwalk, hp⟩ hnode).2⟩
      obtain ⟨s', hs', hgone⟩ :=
        rm_all (fs.depth + 1) hwalk hL (sub_start fs) hfuel hname hall' hclear
      obtain ⟨rfl, rfl⟩ := Prod.mk.inj (Option.some.inj (hr.symm.trans hs'))
      refine ⟨rfl, ?_⟩
      rintro p ⟨L', V', hwalk', hp⟩
      obtain ⟨rfl, -⟩ := Prod.mk.inj (Option.some.inj (hwalk.symm.trans hwalk'))
      exact hgone p hp
  · exact right_of_not_exists hexists

theorem right_rm_iff (k : Kernel N) (fs : FileSystem N) (path : List (Comp N)) :
    Right k fs path ↔ Fit k fs path :=
  ⟨fit_of_right, right_of_fit⟩

/-! ### A socket -/

section Single

variable (name : String) (node : Node String)

/-- A root directory with one entry. -/
def singleTree : FileTree.Tree String
  | [] => some .directory
  | [n] => if n = name then some node else none
  | _ => none

def singleSystem : FileSystem String where
  tree := singleTree name node
  names
    | [] => [.here, .parent, .name name]
    | _ => [.here, .parent]
  depth := 1
  closed := by
    intro p n h
    cases p with
    | nil => rfl
    | cons m p => cases p <;> exact absurd rfl h
  listed := by
    intro p n h
    cases p with
    | nil =>
      by_cases hn : n = name
      · subst hn
        exact List.mem_cons_of_mem _ (List.mem_cons_of_mem _ List.mem_cons_self)
      · exact absurd (if_neg hn) h
    | cons m p => cases p <;> exact absurd rfl h
  bounded := by
    intro p h
    match p with
    | [] => exact Nat.zero_le _
    | [_] => exact Nat.le_refl _
    | _ :: _ :: _ => exact absurd rfl h

end Single

def socketSystem : FileSystem String := singleSystem "muhui.sock" .socket

/-- Nothing is refused. -/
def permissive : Kernel String where
  cwd := []
  links := 40
  lstat _ := true
  relstat _ := true
  opendir _ := true
  unlink _ := true
  rmdir _ := true

theorem socket_not_right : Permitted permissive socketSystem [.name "muhui.sock"] ∧
    (rm permissive socketSystem [.name "muhui.sock"]).map (·.1) = some false ∧
    ¬Right permissive socketSystem [.name "muhui.sock"] := by
  have hpermitted : Permitted permissive socketSystem [.name "muhui.sock"] := by
    intro p node _ _
    refine ⟨rfl, ?_⟩
    split_ifs
    · exact ⟨rfl, rfl⟩
    · rfl
  have hret : (rm permissive socketSystem [.name "muhui.sock"]).map (·.1) = some false := by
    decide
  refine ⟨hpermitted, hret, ?_⟩
  rintro ⟨r, s, hr, -, -, hall, -⟩
  obtain ⟨rfl, -⟩ := hall hpermitted
  rw [hr] at hret
  cases hret

end Muhui.FSUtil
