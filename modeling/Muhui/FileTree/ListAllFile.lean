/-
  `FSUtil::ListAllFile` (`util.cc`) on a file tree.

  The recursion goes into the directories of a directory, not through symbolic links, and appends
  the regular files whose names end as asked for.  `below` are the files that it finds below a
  location.  They are all there are behind directories that may be opened, each of them once
  (`listAllFile_right`).

  The types are those that `readdir` gives in `d_type`.  A file system may leave them out there
  (`DT_UNKNOWN`), and then nothing would be found; here it fills them in.
-/
import Muhui.FileTree.Mkdir
import Mathlib.Data.List.Nodup

namespace Muhui.FileTree

variable {N : Type} {t : Tree N} {links : ℕ} {cur L : List N} {V : List (List N)}
  {comps : List (Comp N)}

/-- Where there is a directory, there is something. -/
theorem reachWith_of_walkWith {next : List N → List (Comp N) → Option (List N × List (List N))}
    {next' : List N → List (Comp N) → Option (List N)}
    (hnext : ∀ cur comps L V, next cur (comps ++ [.here]) = some (L, V) →
      next' cur comps = some L)
    (h : walkWith t next cur (comps ++ [.here]) = some (L, V)) :
    reachWith t next' cur comps = some L := by
  induction comps generalizing cur V with
  | nil =>
    obtain ⟨rfl, -⟩ := Prod.mk.inj (Option.some.inj h)
    rfl
  | cons c rest ih =>
    cases c with
    | here => exact ih h
    | parent => exact ih h
    | name n =>
      rcases walkWith_name h with ⟨hnil, -⟩ | ⟨-, V', -, ⟨hdir, hr⟩ | ⟨absolute, target, hlink, hr⟩⟩
      · exact absurd (List.append_eq_nil_iff.mp hnil).2 (List.cons_ne_nil _ _)
      · rw [reachWith_directory hdir]
        exact ih hr
      · rw [reachWith_symlink hlink]
        refine hnext _ _ L V' ?_
        rw [List.append_assoc]
        exact hr

theorem reach_of_walk (h : walk t links cur (comps ++ [.here]) = some (L, V)) :
    reach t links cur comps = some L := by
  induction links generalizing cur comps L V with
  | zero => exact reachWith_of_walkWith (fun _ _ _ _ h => by cases h) h
  | succ links ih => exact reachWith_of_walkWith (fun _ _ _ _ h => ih h) h

/-- The walk into a directory of a directory. -/
theorem walk_into {n : N} (h : walk t links cur (comps ++ [.here]) = some (L, V))
    (hdir : t (L ++ [n]) = some .directory) :
    ∃ V', walk t links cur (comps ++ [.name n] ++ [.here]) = some (L ++ [n], V') := by
  have hn : walk t links cur (comps ++ [.name n]) = some (L ++ [n], V) := by
    rw [walk_name, h, Option.bind_some, if_neg (by simp [hdir])]
  exact walk_here_directory hn hdir

/-- What is on the way to an entry is a directory. -/
theorem Closed.directory (hclosed : Closed t) {p q : List N} (hq : q ≠ [])
    (h : t (p ++ q) ≠ none) : t p = some .directory := by
  have hne : p ++ q ≠ p := fun heq => hq (List.append_right_eq_self.mp heq)
  obtain ⟨n, hn, -⟩ := hclosed.entry h (List.prefix_append p q) hne
  exact hclosed p n hn

end Muhui.FileTree

namespace Muhui.FSUtil

open FileTree

/-- A file name, of bytes. -/
abbrev Name := List UInt8

/-- What `readdir` gives: the entries that are there, each with its type. -/
def dirents (names : List Name → List (Comp Name)) (t : FileTree.Tree Name) (p : List Name) :
    List (Comp Name × Node Name) :=
  (names p).filterMap fun
    | .name n => (t (p ++ [n])).map fun node => (.name n, node)
    | d_name => some (d_name, .directory)

/-! ### The code -/

/-- The test of the end of a file name. -/
def endsIn (subfix filename : Name) : Bool :=
  if subfix.isEmpty then true
  else if filename.length < subfix.length then false
  else filename.drop (filename.length - subfix.length) = subfix

/-- The body of the loop over the entries. What is neither a directory nor a regular file is passed
over, and so are `.` and `..`. -/
def listEntry (subfix : Name)
    (list : List (Comp Name) → List (List (Comp Name)) → Option (List (List (Comp Name))))
    (path : List (Comp Name)) (files : List (List (Comp Name))) :
    Comp Name × Node Name → Option (List (List (Comp Name)))
  | (.name d_name, .directory) => list (path ++ [.name d_name]) files
  | (.name d_name, .regular) =>
    some (if endsIn subfix d_name then files ++ [path ++ [.name d_name]] else files)
  | _ => some files

variable (k : Kernel Name) (names : List Name → List (Comp Name)) (t : FileTree.Tree Name)
  (subfix : Name)

/-- `FSUtil::ListAllFile`; `none` says that the fuel is used up. -/
def listAllFileFuel :
    ℕ → List (Comp Name) → List (List (Comp Name)) → Option (List (List (Comp Name)))
  | 0, _, _ => none
  | fuel + 1, path, files =>
    if (reach t k.links k.cwd path).isNone then some files
    else
      match walk t k.links k.cwd (path ++ [.here]) with
      | none => some files
      | some r =>
        if k.opendir r.1 then
          (dirents names t r.1).foldlM (listEntry subfix (listAllFileFuel fuel) path) files
        else some files

/-- `FSUtil::ListAllFile` -/
def listAllFile (fs : FileSystem Name) (files : List (List (Comp Name)))
    (path : List (Comp Name)) : Option (List (List (Comp Name))) :=
  listAllFileFuel k fs.names fs.tree subfix (fs.depth + 1) path files

/-! ### What is found -/

/-- What is found for an entry, given what is found below a directory. -/
def found (list : Name → List (List (Comp Name))) (path : List (Comp Name)) :
    Comp Name × Node Name → List (List (Comp Name))
  | (.name n, .directory) => list n
  | (.name n, .regular) => if endsIn subfix n then [path ++ [.name n]] else []
  | _ => []

/-- The paths of the files that are found below a location, as many levels down. -/
def below : ℕ → List (Comp Name) → List Name → List (List (Comp Name))
  | 0, _, _ => []
  | levels + 1, path, p =>
    if k.opendir p then
      (dirents names t p).flatMap
        (found subfix (fun n => below levels (path ++ [.name n]) (p ++ [n])) path)
    else []

variable {k names t subfix} {p : List Name} {V : List (List Name)} {n : Name}
  {path f : List (Comp Name)} {files : List (List (Comp Name))} {fuel levels : ℕ}

theorem endsIn_iff {filename : Name} : endsIn subfix filename = true ↔ subfix <:+ filename := by
  unfold endsIn
  by_cases hempty : subfix = []
  · subst hempty
    exact iff_of_true rfl (List.nil_suffix)
  rw [if_neg fun h => hempty (List.isEmpty_iff.mp h)]
  by_cases hlt : filename.length < subfix.length
  · rw [if_pos hlt]
    exact iff_of_false nofun fun h => Nat.not_le_of_lt hlt h.length_le
  · rw [if_neg hlt, decide_eq_true_eq, List.suffix_iff_eq_drop, eq_comm]

theorem mem_dirents {node : Node Name} :
    (Comp.name n, node) ∈ dirents names t p ↔
      Comp.name n ∈ names p ∧ t (p ++ [n]) = some node := by
  rw [dirents, List.mem_filterMap]
  constructor
  · rintro ⟨c, hc, heq⟩
    cases c with
    | name m =>
      obtain ⟨node', hnode, heq⟩ := Option.map_eq_some_iff.mp heq
      obtain ⟨hm, rfl⟩ := Prod.mk.inj heq
      cases hm
      exact ⟨hc, hnode⟩
    | here => cases heq
    | parent => cases heq
  · rintro ⟨hn, hnode⟩
    exact ⟨.name n, hn, Option.map_eq_some_iff.mpr ⟨node, hnode, rfl⟩⟩

theorem foldlM_append {A B : Type} {f : List B → A → Option (List B)} {g : A → List B}
    {todo : List A} (h : ∀ a ∈ todo, ∀ bs, f bs a = some (bs ++ g a)) (bs : List B) :
    todo.foldlM f bs = some (bs ++ todo.flatMap g) := by
  induction todo generalizing bs with
  | nil => rw [List.flatMap_nil, List.append_nil]; rfl
  | cons a todo ih =>
    rw [List.foldlM_cons, h a List.mem_cons_self bs, List.flatMap_cons, ← List.append_assoc]
    exact ih (fun a ha => h a (List.mem_cons_of_mem _ ha)) _

theorem listAllFile_step (hwalk : walk t k.links k.cwd (path ++ [.here]) = some (p, V))
    (hlist : ∀ n files, t (p ++ [n]) = some .directory →
      listAllFileFuel k names t subfix fuel (path ++ [.name n]) files =
        some (files ++ below k names t subfix fuel (path ++ [.name n]) (p ++ [n]))) :
    listAllFileFuel k names t subfix (fuel + 1) path files =
      some (files ++ below k names t subfix (fuel + 1) path p) := by
  have hreach : ¬(reach t k.links k.cwd path).isNone = true := by
    rw [reach_of_walk hwalk]
    exact Bool.false_ne_true
  rw [listAllFileFuel, if_neg hreach, hwalk, below]
  dsimp only
  by_cases hopen : k.opendir p = true
  · rw [if_pos hopen, if_pos hopen]
    refine foldlM_append ?_ files
    rintro ⟨d_name, node⟩ hmem files
    cases d_name with
    | name n =>
      cases node with
      | directory => exact hlist n files (mem_dirents.mp hmem).2
      | regular =>
        rw [listEntry, found]
        split_ifs
        · rfl
        · rw [List.append_nil]
      | _ => exact congrArg some (List.append_nil files).symm
    | _ => exact congrArg some (List.append_nil files).symm
  · rw [if_neg hopen, if_neg hopen, List.append_nil]

/-- With enough fuel, a run appends what there is. -/
theorem listAllFile_eq (hwalk : walk t k.links k.cwd (path ++ [.here]) = some (p, V))
    (hfuel : ∀ q, t (p ++ q) ≠ none → q.length ≤ fuel) :
    listAllFileFuel k names t subfix (fuel + 1) path files =
      some (files ++ below k names t subfix (fuel + 1) path p) := by
  induction fuel generalizing path p V files with
  | zero =>
    refine listAllFile_step hwalk fun n _ hdir => ?_
    have hlength := hfuel [n] (by simp [hdir])
    cases hlength
  | succ fuel ih =>
    refine listAllFile_step hwalk fun n files hdir => ?_
    obtain ⟨V', hV'⟩ := walk_into hwalk hdir
    refine ih hV' fun q hq => ?_
    rw [List.append_assoc] at hq
    exact Nat.le_of_succ_le_succ (hfuel _ hq)

variable (k t subfix p path) in
/-- There is a regular file below a location, behind directories that may be opened, and its name
ends as asked for. -/
def Listed (f : List (Comp Name)) : Prop :=
  ∃ ns n, f = path ++ (ns ++ [n]).map .name ∧ t (p ++ (ns ++ [n])) = some .regular ∧
    (∀ q, q <+: ns → k.opendir (p ++ q) = true) ∧ subfix <:+ n

theorem listed_of_mem_below (h : f ∈ below k names t subfix levels path p) :
    Listed k t subfix p path f := by
  induction levels generalizing path p with
  | zero => cases h
  | succ levels ih =>
    rw [below] at h
    by_cases hopen : k.opendir p = true
    · rw [if_pos hopen] at h
      obtain ⟨⟨d_name, node⟩, hmem, hf⟩ := List.mem_flatMap.mp h
      cases d_name with
      | name m =>
        cases node with
        | directory =>
          obtain ⟨ns, n, rfl, hregular, hopens, hend⟩ := ih hf
          refine ⟨m :: ns, n, ?_, ?_, fun q hq => ?_, hend⟩
          · simp
          · rwa [List.append_assoc] at hregular
          · cases q with
            | nil => rwa [List.append_nil]
            | cons m' q =>
              obtain ⟨rfl, hpre⟩ := List.cons_prefix_cons.mp hq
              have hentry := hopens q hpre
              rwa [List.append_assoc] at hentry
        | regular =>
          rw [found] at hf
          split_ifs at hf with hend
          · rw [List.mem_singleton] at hf
            refine ⟨[], m, hf, (mem_dirents.mp hmem).2, fun q hq => ?_, endsIn_iff.mp hend⟩
            rwa [List.prefix_nil.mp hq, List.append_nil]
          · cases hf
        | _ => cases hf
      | _ => cases hf
    · rw [if_neg hopen] at h
      cases h

theorem mem_below_of_listed (hclosed : Closed t)
    (hlisted : ∀ p n, t (p ++ [n]) ≠ none → .name n ∈ names p) {ns : List Name}
    (hregular : t (p ++ (ns ++ [n])) = some .regular)
    (hopen : ∀ q, q <+: ns → k.opendir (p ++ q) = true) (hend : subfix <:+ n)
    (hlevels : ns.length < levels) :
    path ++ (ns ++ [n]).map .name ∈ below k names t subfix levels path p := by
  have hsome : t (p ++ (ns ++ [n])) ≠ none := by simp [hregular]
  have hp : k.opendir p = true := by
    have hnil := hopen [] List.nil_prefix
    rwa [List.append_nil] at hnil
  induction ns generalizing path p levels with
  | nil =>
    obtain ⟨levels, rfl⟩ := Nat.exists_eq_succ_of_ne_zero (Nat.ne_of_gt hlevels)
    rw [below, if_pos hp, List.mem_flatMap]
    refine ⟨(.name n, .regular), mem_dirents.mpr ⟨hlisted p n hsome, hregular⟩, ?_⟩
    rw [found, if_pos (endsIn_iff.mpr hend)]
    exact List.mem_singleton_self _
  | cons m ns ih =>
    obtain ⟨levels, rfl⟩ := Nat.exists_eq_succ_of_ne_zero (Nat.ne_of_gt (Nat.zero_lt_of_lt hlevels))
    have hassoc : p ++ (m :: ns ++ [n]) = p ++ [m] ++ (ns ++ [n]) := by simp
    rw [hassoc] at hregular hsome
    have hdir : t (p ++ [m]) = some .directory :=
      hclosed.directory (List.append_ne_nil_of_right_ne_nil ns (List.cons_ne_nil _ _)) hsome
    have hopen' (q : List Name) (hq : q <+: ns) : k.opendir (p ++ [m] ++ q) = true := by
      rw [List.append_assoc]
      exact hopen (m :: q) (List.cons_prefix_cons.mpr ⟨rfl, hq⟩)
    have hm := hopen' [] List.nil_prefix
    rw [List.append_nil] at hm
    rw [below, if_pos hp, List.mem_flatMap]
    refine ⟨(.name m, .directory), mem_dirents.mpr ⟨hlisted p m ?_, hdir⟩, ?_⟩
    · simp [hdir]
    · have hbelow : path ++ [.name m] ++ (ns ++ [n]).map .name ∈
          below k names t subfix levels (path ++ [.name m]) (p ++ [m]) :=
        ih hregular hopen' (Nat.lt_of_succ_lt_succ hlevels) hsome hm
      rwa [List.append_assoc] at hbelow

/-- What is found for an entry goes through it. -/
theorem found_eq {dp : Comp Name × Node Name}
    (h : f ∈ found subfix (fun n => below k names t subfix levels (path ++ [.name n]) (p ++ [n]))
      path dp) : ∃ rest, f = path ++ dp.1 :: rest := by
  obtain ⟨d_name, node⟩ := dp
  cases d_name with
  | name n =>
    cases node with
    | directory =>
      obtain ⟨ns, m, rfl, -⟩ := listed_of_mem_below h
      exact ⟨(ns ++ [m]).map .name, by simp⟩
    | regular =>
      rw [found] at h
      split_ifs at h
      · exact ⟨[], List.mem_singleton.mp h⟩
      · cases h
    | _ => cases h
  | _ => cases h

theorem pairwise_dirents (hnodup : (names p).Nodup) :
    (dirents names t p).Pairwise fun dp dp' => dp.1 ≠ dp'.1 := by
  rw [dirents, List.pairwise_filterMap]
  refine hnodup.imp fun {c c'} hne dp hdp dp' hdp' heq => hne ?_
  have hfst {c : Comp Name} {dp : Comp Name × Node Name}
      (h : (match c with
        | .name n => (t (p ++ [n])).map fun node => (Comp.name n, node)
        | d_name => some (d_name, Node.directory)) = some dp) : dp.1 = c := by
    cases c with
    | name n =>
      obtain ⟨node, -, rfl⟩ := Option.map_eq_some_iff.mp h
      rfl
    | _ =>
      obtain rfl := Option.some.inj h
      rfl
  rw [← hfst hdp, ← hfst hdp', heq]

/-- No file is found twice. -/
theorem nodup_below (hnodup : ∀ p, (names p).Nodup) :
    (below k names t subfix levels path p).Nodup := by
  induction levels generalizing path p with
  | zero => exact List.nodup_nil
  | succ levels ih =>
    rw [below]
    split_ifs
    · rw [List.nodup_flatMap]
      constructor
      · rintro ⟨d_name, node⟩ -
        cases d_name with
        | name n =>
          cases node with
          | directory => exact ih
          | regular =>
            rw [found]
            split_ifs
            · exact List.nodup_singleton _
            · exact List.nodup_nil
          | _ => exact List.nodup_nil
        | _ => exact List.nodup_nil
      · refine (pairwise_dirents (hnodup p)).imp fun {dp dp'} hne f hf hf' => hne ?_
        obtain ⟨rest, rfl⟩ := found_eq hf
        obtain ⟨rest', heq⟩ := found_eq hf'
        exact (List.cons.inj (List.append_cancel_left heq)).1
    · exact List.nodup_nil

variable (k subfix) in
/-- `ListAllFile` appends the files below the path, whatever the kernel refuses, and none twice when
`readdir` gives no entry twice. -/
theorem listAllFile_right (fs : FileSystem Name) (files : List (List (Comp Name)))
    (path : List (Comp Name)) :
    ∃ more, listAllFile k subfix fs files path = some (files ++ more) ∧
      (∀ f, f ∈ more ↔ ∃ L V, walk fs.tree k.links k.cwd (path ++ [.here]) = some (L, V) ∧
        Listed k fs.tree subfix L path f) ∧
      ((∀ p, (fs.names p).Nodup) → more.Nodup) := by
  unfold listAllFile
  cases hwalk : walk fs.tree k.links k.cwd (path ++ [.here]) with
  | none =>
    refine ⟨[], ?_, fun f => iff_of_false nofun nofun, fun _ => List.nodup_nil⟩
    rw [listAllFileFuel, hwalk, List.append_nil]
    split_ifs <;> rfl
  | some r =>
    obtain ⟨p, V⟩ := r
    have hdepth (q : List Name) (hq : fs.tree (p ++ q) ≠ none) : q.length ≤ fs.depth := by
      have hlength := fs.bounded _ hq
      rw [List.length_append] at hlength
      omega
    refine ⟨_, listAllFile_eq hwalk hdepth, fun f => ⟨fun hf => ?_, ?_⟩, nodup_below⟩
    · exact ⟨p, V, rfl, listed_of_mem_below hf⟩
    · rintro ⟨L, V', hL, ns, n, rfl, hregular, hopen, hend⟩
      obtain ⟨rfl, rfl⟩ := Prod.mk.inj (Option.some.inj hL)
      refine mem_below_of_listed fs.closed fs.listed hregular hopen hend ?_
      have hlength := hdepth (ns ++ [n]) (by simp [hregular])
      rw [List.length_append, List.length_singleton] at hlength
      omega

end Muhui.FSUtil
