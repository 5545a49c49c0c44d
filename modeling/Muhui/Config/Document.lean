/-
  Building and reading YAML nodes, as the conversions of configuration values do.

  `node["key"] = value` replaces the value of a key or adds the key at the end (`assign`), and
  `node["key"].push_back(value)` makes a sequence of what is not there yet (`pushBack`).  A document
  is a node, or null if its text is empty; an exception is `none`.
-/
import Muhui.Config.Yaml
import Mathlib.Data.Nat.Notation

namespace Muhui.Config

namespace Members

/-- The value of a key. -/
def find (key : List Char) : Members → Option Node
  | nil => none
  | cons k node rest => if k = key then some node else rest.find key

/-- `node[key] = value` -/
def assign (key : List Char) (value : Node) : Members → Members
  | nil => cons key value nil
  | cons k node rest => if k = key then cons k value rest else cons k node (rest.assign key value)

/-- `node[key].push_back(value)`; a node that is not a sequence is left as it is. -/
def pushBack (key : List Char) (value : Node) (m : Members) : Members :=
  match m.find key with
  | none => m.assign key (.sequence [value])
  | some (.sequence items) => m.assign key (.sequence (items ++ [value]))
  | some _ => m

/-- `node[key] = value` for the keys one after another. -/
def assignAll (fields : List (List Char × Node)) (m : Members) : Members :=
  fields.foldl (fun m field => m.assign field.1 field.2) m

/-- The keys and their values, in the order of an iterator. -/
def toList : Members → List (List Char × Node)
  | nil => []
  | cons key node rest => (key, node) :: rest.toList

def size : Members → ℕ
  | nil => 0
  | cons _ _ rest => rest.size + 1

theorem find_assign (key key' : List Char) (value : Node) (m : Members) :
    (m.assign key value).find key' = if key = key' then some value else m.find key' := by
  cases m with
  | nil => rfl
  | cons k node rest =>
    rw [assign]
    by_cases hk : k = key
    · rw [if_pos hk, find, find, hk]
      split_ifs <;> rfl
    · rw [if_neg hk, find, find, find_assign key key' value rest]
      split_ifs with hkey hother
      · exact absurd (hkey.trans hother.symm) hk
      · rfl
      · rfl
      · rfl

theorem find_assign_self (key : List Char) (value : Node) (m : Members) :
    (m.assign key value).find key = some value := by
  rw [find_assign, if_pos rfl]

theorem find_assign_of_ne {key key' : List Char} (hne : key ≠ key') (value : Node) (m : Members) :
    (m.assign key value).find key' = m.find key' := by
  rw [find_assign, if_neg hne]

theorem find_assignAll_of_notMem {key : List Char} {fields : List (List Char × Node)}
    (h : key ∉ fields.map Prod.fst) (m : Members) : (m.assignAll fields).find key = m.find key := by
  induction fields generalizing m with
  | nil => rfl
  | cons field fields ih =>
    rw [List.map_cons, List.mem_cons, not_or] at h
    rw [assignAll, List.foldl_cons]
    exact (ih h.2 _).trans (find_assign_of_ne (Ne.symm h.1) _ _)

/-- When no key is assigned twice, each has the value it was assigned. -/
theorem find_assignAll {fields : List (List Char × Node)} (h : (fields.map Prod.fst).Nodup)
    {key : List Char} {value : Node} (hmem : (key, value) ∈ fields) (m : Members) :
    (m.assignAll fields).find key = some value := by
  induction fields generalizing m with
  | nil => cases hmem
  | cons field fields ih =>
    rw [List.map_cons, List.nodup_cons] at h
    rw [assignAll, List.foldl_cons]
    rcases List.mem_cons.mp hmem with rfl | hrest
    · exact (find_assignAll_of_notMem h.1 _).trans (find_assign_self ..)
    · exact ih h.2 hrest _

/-! A field that is left out if it has its default. -/

section Default

variable {c : Prop} [Decidable c]

theorem find_ite_self (key : List Char) (value : Node) (m : Members) :
    (if c then m else m.assign key value).find key = if c then m.find key else some value := by
  split_ifs
  · rfl
  · exact find_assign_self key value m

theorem find_ite_of_ne {key key' : List Char} (hne : key ≠ key') (value : Node) (m : Members) :
    (if c then m else m.assign key value).find key' = m.find key' := by
  split_ifs
  · rfl
  · exact find_assign_of_ne hne value m

end Default

/-- Pushing the elements of a list one after another. -/
theorem foldl_pushBack {key : List Char} {items : List Node} (values : List Node) {m : Members}
    (hm : m.find key = some (.sequence items)) :
    (values.foldl (fun m value => m.pushBack key value) m).find key =
      some (.sequence (items ++ values)) := by
  induction values generalizing m items with
  | nil => rw [List.foldl_nil, hm, List.append_nil]
  | cons value values ih =>
    have hpush : (m.pushBack key value).find key = some (.sequence (items ++ [value])) := by
      rw [pushBack, hm]
      exact find_assign_self ..
    rw [List.foldl_cons, ih hpush, List.append_assoc, List.singleton_append]

/-- On a key that is not there: the sequence, if there are any elements. -/
theorem find_foldl_pushBack {key : List Char} (values : List Node) {m : Members}
    (hm : m.find key = none) :
    (values.foldl (fun m value => m.pushBack key value) m).find key =
      if values = [] then none else some (.sequence values) := by
  cases values with
  | nil => exact hm
  | cons value values =>
    have hpush : (m.pushBack key value).find key = some (.sequence [value]) := by
      rw [pushBack, hm]
      exact find_assign_self ..
    rw [List.foldl_cons, foldl_pushBack values hpush, if_neg (List.cons_ne_nil _ _)]
    rfl

/-- Other keys are not touched. -/
theorem find_foldl_pushBack_of_ne {key key' : List Char} (hne : key ≠ key') (values : List Node)
    (m : Members) :
    (values.foldl (fun m value => m.pushBack key value) m).find key' = m.find key' := by
  induction values generalizing m with
  | nil => rfl
  | cons value values ih =>
    have hpush : (m.pushBack key value).find key' = m.find key' := by
      rw [pushBack]
      split
      · exact find_assign_of_ne hne ..
      · exact find_assign_of_ne hne ..
      · rfl
    rw [List.foldl_cons, ih, hpush]

end Members

namespace Node

/-- `node["key"]` in a node that may be null or undefined: the value, which is undefined if the key
is not there. A scalar has no keys. -/
def get (key : List Char) : Option Node → Option (Option Node)
  | some (.map members) => some (members.find key)
  | some (.sequence _) => some none
  | some (.scalar _) => none
  | none => some none

/-- Null in a tree, which is printed as `~`. -/
def null : Node := .scalar "~".toList

/-- `as<std::string>()` -/
def asString : Node → Option (List Char)
  | scalar text => some text
  | _ => none

/-- `node["key"].as<std::string>()` if the key is there, else the default. -/
def stringAt (key : List Char) (d : List Char) (node : Option Node) : Option (List Char) :=
  (get key node).bind fun
    | some value => value.asString
    | none => some d

/-- `node["key"].as<std::string>()` -/
def string (key : List Char) (node : Option Node) : Option (List Char) :=
  (get key node).bind fun value => value.bind asString

/-- `node["key"].as<std::string>(d)`, which is the default if the value is no scalar. -/
def stringOr (key : List Char) (d : List Char) (node : Option Node) : Option (List Char) :=
  (get key node).map fun value => (value.bind asString).getD d

/-- `node["key"].as<int>(d)`; `asInt` reads the text of a scalar. -/
def intOr {α : Type} (asInt : List Char → Option α) (key : List Char) (d : α)
    (node : Option Node) : Option α :=
  (get key node).map fun value => ((value.bind asString).bind asInt).getD d

theorem get_map (key : List Char) (m : Members) : get key (some (.map m)) = some (m.find key) :=
  rfl

/-- A field that is left out if it has its default is read back. -/
theorem stringAt_of_find {key text d : List Char} {m : Members} {c : Prop} [Decidable c]
    (h : m.find key = if c then none else some (.scalar text)) (hc : c → text = d) :
    stringAt key d (some (.map m)) = some text := by
  rw [stringAt, get_map, h, Option.bind_some]
  split_ifs with hd
  · exact congrArg some (hc hd).symm
  · rfl

section Scalar

variable {key text : List Char} {m : Members} (h : m.find key = some (.scalar text))
include h

theorem string_of_find : string key (some (.map m)) = some text := by
  rw [string, get_map, h]
  rfl

theorem stringOr_of_find (d : List Char) : stringOr key d (some (.map m)) = some text := by
  rw [stringOr, get_map, h]
  rfl

theorem intOr_of_find {α : Type} {asInt : List Char → Option α} {v : α} (hv : asInt text = some v)
    (d : α) : intOr asInt key d (some (.map m)) = some v := by
  rw [intOr, get_map, h]
  exact congrArg (fun value : Option α => some (value.getD d)) hv

end Scalar

/-- Of a node that is no scalar the default is read. -/
theorem stringOr_of_asString {key : List Char} {m : Members} {value : Node}
    (h : m.find key = some value) (hvalue : value.asString = none) (d : List Char) :
    stringOr key d (some (.map m)) = some d := by
  rw [stringOr, get_map, h, Option.map_some, Option.bind_some, hvalue]
  rfl

/-- `node[x]` for the indices below `node.size()`; a map is asked for the number as a key. -/
def elements : Node → List (Option Node)
  | sequence items => items.map some
  | scalar _ => []
  | map members => (List.range members.size).map fun x => members.find (Nat.toDigits 10 x)

theorem mapM_elements_scalar (texts : List (List Char)) :
    (sequence (texts.map scalar)).elements.mapM (fun x => x.bind asString) = some texts := by
  show ((texts.map scalar).map some).mapM (fun x => x.bind asString) = some texts
  induction texts with
  | nil => rfl
  | cons text texts ih =>
    rw [List.map_cons, List.map_cons, List.mapM_cons, ih]
    rfl

end Node

end Muhui.Config
