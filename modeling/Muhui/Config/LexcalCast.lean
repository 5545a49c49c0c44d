/-
  `LexcalCast` (`config.h`): the configuration text of the containers of the standard library.

  A vector or a map loads the text of an element and puts the node into its own, so an element comes
  back as it would by itself.  A list or a set puts the text in as a scalar.  That is as good for a
  number, but of a scalar a container reads nothing, so a container in a list or a set comes back
  empty (`back`).

  `emit` and `load` are those of yaml-cpp, and `iter` is the order in which a set or a map is gone
  through.
-/
import Muhui.Config.Document
import Mathlib.Data.Finmap
import Mathlib.Data.Finset.Image

namespace Muhui.Config

/-- `std::map<std::string, T>` and `std::unordered_map<std::string, T>` -/
abbrev StringMap (T : Type) : Type := Finmap fun _ : List Char => T

/-- The value type of a map. -/
abbrev Field (T : Type) : Type := (_ : List Char) × T

namespace Members

theorem toList_assign {key : List Char} {m : Members} (h : key ∉ m.toList.map Prod.fst)
    (value : Node) : (m.assign key value).toList = m.toList ++ [(key, value)] := by
  cases m with
  | nil => rfl
  | cons k node rest =>
    rw [toList, List.map_cons, List.mem_cons, not_or] at h
    rw [assign, if_neg (Ne.symm h.1), toList, toList_assign h.2 value]
    rfl

/-- Keys that differ stand in the order in which they were assigned. -/
theorem toList_assignAll {fields : List (List Char × Node)} {m : Members}
    (h : ((m.toList ++ fields).map Prod.fst).Nodup) :
    (m.assignAll fields).toList = m.toList ++ fields := by
  induction fields generalizing m with
  | nil => exact (List.append_nil _).symm
  | cons field fields ih =>
    have hkey : field.1 ∉ m.toList.map Prod.fst := by
      rw [List.map_append, List.map_cons, List.nodup_append] at h
      intro hmem
      exact h.2.2 _ hmem _ (List.mem_cons_self ..) rfl
    have hm : (m.assign field.1 field.2).toList = m.toList ++ [field] := toList_assign hkey field.2
    rw [assignAll, List.foldl_cons]
    show ((m.assign field.1 field.2).assignAll fields).toList = _
    rw [ih (by rwa [hm, List.append_assoc]), hm, List.append_assoc]
    rfl

end Members

namespace Node

/-- What an iterator goes through; the elements of a sequence have no key that could be read. -/
def fields : Node → Option (List (List Char × Node))
  | scalar _ => some []
  | sequence items => if items.isEmpty then some [] else none
  | map members => some members.toList

/-- The sequence becomes a map at the first key. -/
def ofMembers : Members → Node
  | .nil => sequence []
  | members => map members

end Node

namespace LexcalCast

/-! ### The casts -/

section Casts

variable {T : Type} (emit : Node → List Char) (load : List Char → Option (Option Node))
  (toText : T → Option (List Char)) (ofText : List Char → Option T)

/-- `LexcalCast<std::string, std::vector<T>>` -/
def vectorOfText (v : List Char) : Option (List T) :=
  (load v).bind fun node =>
    ((node.map Node.elements).getD []).mapM fun x => ofText ((x.map emit).getD [])

/-- `LexcalCast<std::vector<T>, std::string>` -/
def textOfVector (vec : List T) : Option (List Char) :=
  (vec.mapM fun i => (toText i).bind load).map fun nodes =>
    emit (.sequence (nodes.map fun node => node.getD .null))

/-- `LexcalCast<std::string, std::list<T>>` -/
def listOfText (v : List Char) : Option (List T) := vectorOfText emit load ofText v

/-- `LexcalCast<std::list<T>, std::string>` -/
def textOfList (vec : List T) : Option (List Char) :=
  (vec.mapM toText).map fun texts => emit (.sequence (texts.map .scalar))

/-- `LexcalCast<std::string, std::set<T>>`, and that of `std::unordered_set<T>` -/
def setOfText [DecidableEq T] (v : List Char) : Option (Finset T) :=
  (vectorOfText emit load ofText v).map List.toFinset

/-- `LexcalCast<std::set<T>, std::string>`, and that of `std::unordered_set<T>` -/
def textOfSet (iter : Finset T → List T) (s : Finset T) : Option (List Char) :=
  textOfList emit toText (iter s)

/-- `LexcalCast<std::string, std::map<std::string, T>>`, and that of `std::unordered_map`; a key
that is there already keeps its value. -/
def mapOfText (v : List Char) : Option (StringMap T) :=
  (load v).bind fun node =>
    ((node.map Node.fields).getD (some [])).bind fun fields =>
      (fields.mapM fun it => (ofText (emit it.2)).map (Sigma.mk it.1)).map List.toFinmap

/-- `LexcalCast<std::map<std::string, T>, std::string>`, and that of `std::unordered_map` -/
def textOfMap (iter : StringMap T → List (Field T)) (m : StringMap T) : Option (List Char) :=
  ((iter m).mapM fun i => ((toText i.2).bind load).map fun node => (i.1, node.getD .null)).map
    fun fields => emit (.ofMembers (Members.nil.assignAll fields))

end Casts

/-! ### Nested types -/

/-- The types of the configuration values: a plain one, and the containers. -/
inductive Shape
  | value
  | vector (T : Shape)
  | list (T : Shape)
  | set (T : Shape)
  | map (T : Shape)

namespace Shape

variable {α : Type}

/-- The values of a type; `α` is the plain one. -/
@[reducible]
def Val (α : Type) : Shape → Type
  | value => α
  | vector T => List (T.Val α)
  | list T => List (T.Val α)
  | set T => Finset (T.Val α)
  | map T => StringMap (T.Val α)

instance decEq [DecidableEq α] : (T : Shape) → DecidableEq (T.Val α)
  | value => inferInstanceAs (DecidableEq α)
  | vector T => letI := decEq T; inferInstanceAs (DecidableEq (List (T.Val α)))
  | list T => letI := decEq T; inferInstanceAs (DecidableEq (List (T.Val α)))
  | set T => letI := decEq T; inferInstanceAs (DecidableEq (Finset (T.Val α)))
  | map T => letI := decEq T; inferInstanceAs (DecidableEq (StringMap (T.Val α)))

end Shape

/-- How the containers are gone through. -/
structure Order (α : Type) where
  set : ∀ T : Shape, Finset (T.Val α) → List (T.Val α)
  map : ∀ T : Shape, StringMap (T.Val α) → List (Field (T.Val α))
  set_all : ∀ T s, (set T s : Multiset (T.Val α)) = s.val
  map_all : ∀ T m, (map T m : Multiset (Field (T.Val α))) = m.entries

namespace Order

variable {α : Type} (iter : Order α) {T : Shape}

theorem mem_set {s : Finset (T.Val α)} {i : T.Val α} : i ∈ iter.set T s ↔ i ∈ s := by
  rw [← Multiset.mem_coe, iter.set_all, Finset.mem_val]

theorem mem_map {m : StringMap (T.Val α)} {k : List Char} {i : T.Val α} :
    ⟨k, i⟩ ∈ iter.map T m ↔ m.lookup k = some i := by
  rw [← Multiset.mem_coe, iter.map_all]
  exact Finmap.lookup_eq_some_iff.symm

theorem nodupKeys_map (m : StringMap (T.Val α)) : (iter.map T m).NodupKeys := by
  rw [← Multiset.coe_nodupKeys, iter.map_all]
  exact m.nodupKeys

theorem toFinset_map_set [DecidableEq α] (f : T.Val α → T.Val α) (s : Finset (T.Val α)) :
    ((iter.set T s).map f).toFinset = s.image f := by
  ext i
  simp [iter.mem_set]

theorem lookup_map_map (f : T.Val α → T.Val α) (m : StringMap (T.Val α)) (k : List Char) :
    ((iter.map T m).map fun i => (⟨i.1, f i.2⟩ : Field (T.Val α))).toFinmap.lookup k =
      (m.lookup k).map f := by
  have hlookup : (iter.map T m).dlookup k = m.lookup k := by
    apply Option.ext
    intro i
    exact (List.mem_dlookup_iff (iter.nodupKeys_map m)).trans iter.mem_map
  rw [Finmap.dlookup_list_toFinmap, ← hlookup]
  exact List.dlookup_map₂ (f := fun _ => f) k

/-- The members of the node of a map. -/
theorem toList_assignAll_map (d : T.Val α → Node) (m : StringMap (T.Val α)) :
    (Members.nil.assignAll ((iter.map T m).map fun i => (i.1, d i.2))).toList =
      (iter.map T m).map fun i => (i.1, d i.2) := by
  apply Members.toList_assignAll (m := .nil)
  show (((iter.map T m).map _).map Prod.fst).Nodup
  rw [List.map_map]
  exact iter.nodupKeys_map m

end Order

variable {α : Type} (emit : Node → List Char) (load : List Char → Option (Option Node))
  (text : α → List Char) (cast : List Char → Option α) (iter : Order α)

/-- `LexcalCast<T, std::string>`; `text` is that of the plain type. -/
def toText : (T : Shape) → T.Val α → Option (List Char)
  | .value, v => some (text v)
  | .vector T, v => textOfVector emit load (toText T) v
  | .list T, v => textOfList emit (toText T) v
  | .set T, v => textOfSet emit (toText T) (iter.set T) v
  | .map T, v => textOfMap emit load (toText T) (iter.map T) v

/-- `LexcalCast<std::string, T>`; `cast` is that of the plain type. -/
def ofText [DecidableEq α] : (T : Shape) → List Char → Option (T.Val α)
  | .value, v => cast v
  | .vector T, v => vectorOfText emit load (ofText T) v
  | .list T, v => listOfText emit load (ofText T) v
  | .set T, v => setOfText emit load (ofText T) v
  | .map T, v => mapOfText emit load (ofText T) v

/-! ### What comes back -/

/-- The tree that is printed as the text of a value. -/
def tree : (T : Shape) → T.Val α → Node
  | .value, v => .scalar (text v)
  | .vector T, v => .sequence (v.map (tree T))
  | .list T, v => .sequence (v.map fun i => .scalar (emit (tree T i)))
  | .set T, v => .sequence ((iter.set T v).map fun i => .scalar (emit (tree T i)))
  | .map T, v =>
    .ofMembers (Members.nil.assignAll ((iter.map T v).map fun i => (i.1, tree T i.2)))

/-- The text of a tree is loaded as the tree. -/
def Reads (d : Node) : Prop := load (emit d) = some (some d)

/-- The trees of a value are read as they are, and the plain values stand in them unquoted. -/
def Readable : (T : Shape) → T.Val α → Prop
  | .value, v =>
    Reads emit load (.scalar (text v)) ∧ emit (.scalar (text v)) = text v ∧ cast (text v) = some v
  | .vector T, v => Reads emit load (tree emit text iter (.vector T) v) ∧ ∀ i ∈ v, Readable T i
  | .list T, v =>
    Reads emit load (tree emit text iter (.list T) v) ∧
      ∀ i ∈ v, Readable T i ∧ Reads emit load (.scalar (emit (tree emit text iter T i)))
  | .set T, v =>
    Reads emit load (tree emit text iter (.set T) v) ∧
      ∀ i ∈ v, Readable T i ∧ Reads emit load (.scalar (emit (tree emit text iter T i)))
  | .map T, v =>
    Reads emit load (tree emit text iter (.map T) v) ∧
      ∀ k i, v.lookup k = some i → Readable T i

/-- What comes back of an element of a list or a set. -/
def flat : (T : Shape) → T.Val α → T.Val α
  | .value, v => v
  | .vector _, _ => []
  | .list _, _ => []
  | .set _, _ => ∅
  | .map _, _ => ∅

/-- What comes back of a value. -/
def back [DecidableEq α] : (T : Shape) → T.Val α → T.Val α
  | .value, v => v
  | .vector T, v => v.map (back T)
  | .list T, v => v.map (flat T)
  | .set T, v => v.image (flat T)
  | .map T, v => ((iter.map T v).map fun i => (⟨i.1, back T i.2⟩ : Field _)).toFinmap

/-- A plain value, or an empty container. -/
def Flat : (T : Shape) → T.Val α → Prop
  | .value, _ => True
  | .vector _, v => v = []
  | .list _, v => v = []
  | .set _, v => v = ∅
  | .map _, v => v = ∅

/-- No list or set in the value has a container in it that is not empty. -/
def Kept : (T : Shape) → T.Val α → Prop
  | .value, _ => True
  | .vector T, v => ∀ i ∈ v, Kept T i
  | .list T, v => ∀ i ∈ v, Flat T i
  | .set T, v => ∀ i ∈ v, Flat T i
  | .map T, v => ∀ k i, v.lookup k = some i → Kept T i

/-! ### The loops -/

section Loops

theorem mapM_of_forall {β γ : Type} {f : β → Option γ} {g : β → γ} {l : List β}
    (h : ∀ i ∈ l, f i = some (g i)) : l.mapM f = some (l.map g) := by
  induction l with
  | nil => rfl
  | cons i l ih =>
    rw [List.forall_mem_cons] at h
    rw [List.mapM_cons, h.1, ih h.2]
    rfl

variable {T : Type} {emit : Node → List Char} {load : List Char → Option (Option Node)}
  {toText : T → Option (List Char)} {ofText : List Char → Option T}

theorem textOfVector_of_forall {d : T → Node} {vec : List T}
    (h : ∀ i ∈ vec, toText i = some (emit (d i)) ∧ Reads emit load (d i)) :
    textOfVector emit load toText vec = some (emit (.sequence (vec.map d))) := by
  have hload : ∀ i ∈ vec, (toText i).bind load = some (some (d i)) := by
    intro i hi
    rw [(h i hi).1, Option.bind_some, (h i hi).2]
  rw [textOfVector, mapM_of_forall hload, Option.map_some, List.map_map]
  rfl

theorem textOfList_of_forall {d : T → Node} {vec : List T}
    (h : ∀ i ∈ vec, toText i = some (emit (d i))) :
    textOfList emit toText vec =
      some (emit (.sequence (vec.map fun i => .scalar (emit (d i))))) := by
  rw [textOfList, mapM_of_forall h, Option.map_some, List.map_map]
  rfl

theorem textOfMap_of_forall {iter : StringMap T → List (Field T)} {d : T → Node} {m : StringMap T}
    (h : ∀ i ∈ iter m, toText i.2 = some (emit (d i.2)) ∧ Reads emit load (d i.2)) :
    textOfMap emit load toText iter m =
      some (emit (.ofMembers (Members.nil.assignAll ((iter m).map fun i => (i.1, d i.2))))) := by
  rw [textOfMap, mapM_of_forall (g := fun i : Field T => (i.1, d i.2)), Option.map_some]
  intro i hi
  rw [(h i hi).1, Option.bind_some, (h i hi).2]
  rfl

theorem vectorOfText_sequence {β : Type} {l : List β} {d : β → Node} {g : β → T}
    (h : Reads emit load (.sequence (l.map d)))
    (hitems : ∀ i ∈ l, ofText (emit (d i)) = some (g i)) :
    vectorOfText emit load ofText (emit (.sequence (l.map d))) = some (l.map g) := by
  rw [vectorOfText, h, Option.bind_some]
  show (((l.map d).map some).mapM fun x => ofText ((x.map emit).getD [])) = _
  rw [List.mapM_map, List.mapM_map]
  exact mapM_of_forall hitems

/-- A scalar has no elements. -/
theorem vectorOfText_scalar {t : List Char} (h : Reads emit load (.scalar t)) :
    vectorOfText emit load ofText (emit (.scalar t)) = some [] := by
  rw [vectorOfText, h, Option.bind_some]
  rfl

theorem mapOfText_scalar {t : List Char} (h : Reads emit load (.scalar t)) :
    mapOfText emit load ofText (emit (.scalar t)) = some ∅ := by
  rw [mapOfText, h, Option.bind_some]
  rfl

theorem mapOfText_ofMembers {m : Members} {l : List (Field T)} {d : T → Node} {g : T → T}
    (h : Reads emit load (.ofMembers m)) (hm : m.toList = l.map fun i => (i.1, d i.2))
    (hitems : ∀ i ∈ l, ofText (emit (d i.2)) = some (g i.2)) :
    mapOfText emit load ofText (emit (.ofMembers m)) =
      some (l.map fun i => (⟨i.1, g i.2⟩ : Field T)).toFinmap := by
  have hfields : (Node.ofMembers m).fields = some m.toList := by cases m <;> rfl
  rw [mapOfText, h, Option.bind_some, Option.map_some, hfields, Option.getD_some, Option.bind_some,
    hm, List.mapM_map, mapM_of_forall (g := fun i => (⟨i.1, g i.2⟩ : Field T)), Option.map_some]
  intro i hi
  show (ofText (emit (d i.2))).map _ = _
  rw [hitems i hi]
  rfl

end Loops

/-! ### Round trip -/

section RoundTrip

variable {emit load text cast iter} {T : Shape} {v : T.Val α}

theorem reads_tree (h : Readable emit load text cast iter T v) :
    Reads emit load (tree emit text iter T v) := by
  cases T <;> exact h.1

/-- The text is that of the tree. -/
theorem toText_eq (h : Readable emit load text cast iter T v) :
    toText emit load text iter T v = some (emit (tree emit text iter T v)) := by
  induction T with
  | value => exact congrArg some h.2.1.symm
  | vector T ih => exact textOfVector_of_forall fun i hi => ⟨ih (h.2 i hi), reads_tree (h.2 i hi)⟩
  | list T ih => exact textOfList_of_forall fun i hi => ih (h.2 i hi).1
  | set T ih => exact textOfList_of_forall fun i hi => ih (h.2 i (iter.mem_set.mp hi)).1
  | map T ih =>
    apply textOfMap_of_forall
    intro i hi
    have hi := h.2 i.1 i.2 (iter.mem_map.mp hi)
    exact ⟨ih hi, reads_tree hi⟩

theorem flat_eq_iff : flat T v = v ↔ Flat T v := by
  cases T with
  | value => exact iff_of_true rfl trivial
  | vector T => exact eq_comm
  | list T => exact eq_comm
  | set T => exact eq_comm
  | map T => exact eq_comm

theorem flat_flat : flat T (flat T v) = flat T v := by
  cases T <;> rfl

variable [DecidableEq α]

/-- Of the text of an element of a list or a set, read as that of a scalar. -/
theorem ofText_scalar (h : Readable emit load text cast iter T v)
    (hscalar : Reads emit load (.scalar (emit (tree emit text iter T v)))) :
    ofText emit load cast T (emit (.scalar (emit (tree emit text iter T v)))) =
      some (flat T v) := by
  cases T with
  | value =>
    show cast (emit (.scalar (emit (.scalar (text v))))) = some v
    rw [h.2.1, h.2.1]
    exact h.2.2
  | vector T => exact vectorOfText_scalar hscalar
  | list T => exact vectorOfText_scalar hscalar
  | set T => exact congrArg (Option.map List.toFinset) (vectorOfText_scalar hscalar)
  | map T => exact mapOfText_scalar hscalar

theorem ofText_tree (h : Readable emit load text cast iter T v) :
    ofText emit load cast T (emit (tree emit text iter T v)) = some (back iter T v) := by
  induction T with
  | value => exact (congrArg cast h.2.1).trans h.2.2
  | vector T ih => exact vectorOfText_sequence h.1 fun i hi => ih (h.2 i hi)
  | list T ih =>
    exact vectorOfText_sequence h.1 fun i hi => ofText_scalar (h.2 i hi).1 (h.2 i hi).2
  | set T ih =>
    show (vectorOfText _ _ _ (emit (.sequence _))).map List.toFinset = _
    rw [vectorOfText_sequence (g := flat T) h.1, Option.map_some, iter.toFinset_map_set]
    · rfl
    · intro i hi
      have hi := h.2 i (iter.mem_set.mp hi)
      exact ofText_scalar hi.1 hi.2
  | map T ih =>
    apply mapOfText_ofMembers h.1 (iter.toList_assignAll_map _ v)
    intro i hi
    exact ih (h.2 i.1 i.2 (iter.mem_map.mp hi))

theorem map_eq_self {β : Type} {f : β → β} {l : List β} : l.map f = l ↔ ∀ i ∈ l, f i = i := by
  conv_lhs => rhs; rw [← List.map_id l]
  exact List.map_inj_left

/-- Exactly the values in which nothing is lost come back. -/
theorem back_eq_iff : back iter T v = v ↔ Kept T v := by
  induction T with
  | value => exact iff_of_true rfl trivial
  | vector T ih => exact map_eq_self.trans (forall₂_congr fun i _ => ih)
  | list T ih => exact map_eq_self.trans (forall₂_congr fun i _ => flat_eq_iff)
  | set T ih =>
    show v.image (flat T) = v ↔ ∀ i ∈ v, Flat T i
    constructor
    · intro h i hi
      rw [← h] at hi
      obtain ⟨j, -, rfl⟩ := Finset.mem_image.mp hi
      exact flat_eq_iff.mp flat_flat
    · intro h
      calc
        v.image (flat T) = v.image id := Finset.image_congr fun i hi => flat_eq_iff.mpr (h i hi)
        _ = v := Finset.image_id
  | map T ih =>
    have hlookup : ∀ k, Finmap.lookup k (back iter (.map T) v) = (v.lookup k).map (back iter T) :=
      iter.lookup_map_map (back iter T) v
    constructor
    · intro h k i hi
      have hk := hlookup k
      rw [h, hi] at hk
      exact ih.mp (Option.some_inj.mp hk).symm
    · intro h
      apply Finmap.ext_lookup
      intro k
      refine (hlookup k).trans ?_
      cases hi : v.lookup k with
      | none => rfl
      | some i => exact congrArg some (ih.mpr (h k i hi))

theorem ofText_toText (h : Readable emit load text cast iter T v) :
    (toText emit load text iter T v).bind (ofText emit load cast T) = some (back iter T v) := by
  rw [toText_eq h, Option.bind_some, ofText_tree h]

/-- However the containers are nested, a value is read back from its text exactly when no list or
set in it has a container in it that is not empty. -/
theorem roundTrip_iff (h : Readable emit load text cast iter T v) :
    (toText emit load text iter T v).bind (ofText emit load cast T) = some v ↔ Kept T v := by
  rw [ofText_toText h, Option.some_inj]
  exact back_eq_iff

/-- The list with one vector of one number is not read back. -/
theorem roundTrip_iff_list_vector :
    let emit : Node → List Char
      | .scalar t => if t = "1".toList then t else "\"- 1\"".toList
      | .sequence [.scalar t] =>
        if t = "1".toList then "- 1".toList else "- \"- 1\"".toList
      | _ => []
    let load (v : List Char) : Option (Option Node) :=
      if v = "1".toList then some (some (.scalar v))
      else if v = "- 1".toList then some (some (.sequence [.scalar "1".toList]))
      else if v = "\"- 1\"".toList then some (some (.scalar "- 1".toList))
      else if v = "- \"- 1\"".toList then some (some (.sequence [.scalar "- 1".toList]))
      else none
    let iter : Order (List Char) :=
      { set := fun _ s => s.toList
        map := fun _ m => m.entries.toList
        set_all := fun _ s => Finset.coe_toList s
        map_all := fun _ m => Multiset.coe_toList m.entries }
    ¬ (toText emit load id iter (.list (.vector .value)) [["1".toList]]).bind
      (ofText emit load some (.list (.vector .value))) = some [["1".toList]] := by
  intro emit load iter
  have h : Readable emit load id some iter (.list (.vector .value)) [["1".toList]] := by
    refine ⟨rfl, fun i hi => ?_⟩
    obtain rfl := List.mem_singleton.mp hi
    refine ⟨⟨rfl, fun j hj => ?_⟩, rfl⟩
    obtain rfl := List.mem_singleton.mp hj
    exact ⟨rfl, rfl, rfl⟩
  rw [roundTrip_iff h]
  intro hkept
  exact absurd (hkept _ (List.mem_singleton_self _)) (List.cons_ne_nil _ _)

end RoundTrip

end LexcalCast

end Muhui.Config
