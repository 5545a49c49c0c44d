/-
  `YamlToJson` and `JsonToYaml` (`util.cc`).

  A container comes to be with its first element, so an empty one stays the null value that it began
  as, and null goes back as the empty scalar.  `JsonToYaml` counts the elements of an array with an
  `int`.  Every other tree comes back, its maps in the order of their keys (`comesBack_iff`).
-/
import Mathlib.Algebra.Ring.Nat
import Mathlib.Data.List.Perm.Basic
import Mathlib.Data.Nat.Notation

namespace Muhui.YamlJson

/-! ### Trees -/

/-- `YAML::Node` -/
inductive Yaml
  | null
  | scalar (text : List UInt8)
  | sequence (items : List Yaml)
  | map (members : List (List UInt8 × Yaml))

/-- `Json::Value`, as far as it is made here: an object has its members in the order of the keys. -/
inductive Json
  | null
  | string (text : List UInt8)
  | array (items : List Json)
  | object (members : List (List UInt8 × Json))

/-- `operator[]` and an assignment, in a `std::map`. -/
def insert {α : Type} (key : List UInt8) (v : α) : List (List UInt8 × α) → List (List UInt8 × α)
  | [] => [(key, v)]
  | m :: members =>
    if key < m.1 then (key, v) :: m :: members
    else if key = m.1 then (key, v) :: members
    else m :: insert key v members

/-- The same in a map that keeps the order in which keys are added. -/
def assign {α : Type} (key : List UInt8) (v : α) : List (List UInt8 × α) → List (List UInt8 × α)
  | [] => [(key, v)]
  | m :: members => if m.1 = key then (key, v) :: members else m :: assign key v members

/-- `append`; `none` is an exception, in what follows also. -/
def Json.append : Json → Json → Option Json
  | .null, v => some (.array [v])
  | .array items, v => some (.array (items ++ [v]))
  | _, _ => none

/-- `jnode[key] = v` -/
def Json.set : Json → List UInt8 → Json → Option Json
  | .null, key, v => some (.object [(key, v)])
  | .object members, key, v => some (.object (insert key v members))
  | _, _, _ => none

/-- `asString` -/
def Json.asString : Json → Option (List UInt8)
  | .null => some []
  | .string text => some text
  | _ => none

/-- `push_back` -/
def Yaml.pushBack : Yaml → Yaml → Option Yaml
  | .null, n => some (.sequence [n])
  | .sequence items, n => some (.sequence (items ++ [n]))
  | _, _ => none

/-- `ynode[key] = n`, in a node that is not a sequence -/
def Yaml.set : Yaml → List UInt8 → Yaml → Option Yaml
  | .null, key, n => some (.map [(key, n)])
  | .map members, key, n => some (.map (assign key n members))
  | _, _, _ => none

/-! ### The code -/

mutual

/-- `YamlToJson` into a fresh value; `none` is `false`. -/
def yamlToJson : Yaml → Option Json
  | .null => some .null
  | .scalar text => some (.string text)
  | .sequence items => appendAll items .null
  | .map members => setAll members .null

/-- The loop over a sequence. -/
def appendAll : List Yaml → Json → Option Json
  | [], jnode => some jnode
  | item :: items, jnode =>
    (yamlToJson item).bind fun v => (jnode.append v).bind fun jnode => appendAll items jnode

/-- The loop over a map. -/
def setAll : List (List UInt8 × Yaml) → Json → Option Json
  | [], jnode => some jnode
  | (key, item) :: members, jnode =>
    (yamlToJson item).bind fun v => (jnode.set key v).bind fun jnode => setAll members jnode

end

/-- `(int)jnode.size()`, as the number of passes of the loop -/
def passes (items : List Json) : ℕ := (UInt32.ofNat items.length).toInt32.toInt.toNat

mutual

/-- `JsonToYaml` into a fresh node; `none` is `false`. -/
def jsonToYaml : Json → Option Yaml
  | .array items => pushAll items (passes items) .null
  | .object members => putAll members .null
  | jnode => jnode.asString.map .scalar

/-- The loop over an array. -/
def pushAll : List Json → ℕ → Yaml → Option Yaml
  | item :: items, n + 1, ynode =>
    (jsonToYaml item).bind fun y => (ynode.pushBack y).bind fun ynode => pushAll items n ynode
  | _, _, ynode => some ynode

/-- The loop over an object. -/
def putAll : List (List UInt8 × Json) → Yaml → Option Yaml
  | [], ynode => some ynode
  | (key, item) :: members, ynode =>
    (jsonToYaml item).bind fun y => (ynode.set key y).bind fun ynode => putAll members ynode

end

/-! ### Trees that are the same -/

/-- The tree is built from string scalars, sequences and maps with distinct keys. -/
inductive Built : Yaml → Prop
  | scalar (text : List UInt8) : Built (.scalar text)
  | sequence {items : List Yaml} : (∀ y ∈ items, Built y) → Built (.sequence items)
  | map {members : List (List UInt8 × Yaml)} : (members.map Prod.fst).Nodup →
      (∀ m ∈ members, Built m.2) → Built (.map members)

/-- Equality up to the order of maps: the members of the one, in some order, have the keys of the
other and values that are the same. -/
inductive Same : Yaml → Yaml → Prop
  | null : Same .null .null
  | scalar (text : List UInt8) : Same (.scalar text) (.scalar text)
  | sequence {xs ys : List Yaml} : xs.length = ys.length →
      (∀ p ∈ xs.zip ys, Same p.1 p.2) → Same (.sequence xs) (.sequence ys)
  | map {xs xs' ys : List (List UInt8 × Yaml)} : xs.Perm xs' →
      xs'.map Prod.fst = ys.map Prod.fst → (∀ p ∈ xs'.zip ys, Same p.1.2 p.2.2) →
      Same (.map xs) (.map ys)

def ComesBack (y : Yaml) : Prop :=
  ∃ j y', yamlToJson y = some j ∧ jsonToYaml j = some y' ∧ Same y' y

/-- No container is empty, and the length of each sequence is an `int`. -/
inductive Full : Yaml → Prop
  | scalar (text : List UInt8) : Full (.scalar text)
  | sequence {items : List Yaml} : items ≠ [] → items.length < 2 ^ 31 → (∀ y ∈ items, Full y) →
      Full (.sequence items)
  | map {members : List (List UInt8 × Yaml)} : members ≠ [] → (∀ m ∈ members, Full m.2) →
      Full (.map members)

/-! ### Lists of members -/

section Members

variable {α β : Type} {key : List UInt8} {v : α} {l l' : List (List UInt8 × α)}

theorem insert_perm (h : key ∉ l.map Prod.fst) : (insert key v l).Perm ((key, v) :: l) := by
  induction l with
  | nil => rfl
  | cons m l ih =>
    rw [List.map_cons, List.mem_cons, not_or] at h
    rw [insert]
    split_ifs with hlt heq
    · rfl
    · exact absurd heq h.1
    · exact ((ih h.2).cons m).trans (List.Perm.swap _ _ _)

theorem assign_of_notMem (h : key ∉ l.map Prod.fst) : assign key v l = l ++ [(key, v)] := by
  induction l with
  | nil => rfl
  | cons m l ih =>
    rw [List.map_cons, List.mem_cons, not_or] at h
    rw [assign, if_neg (Ne.symm h.1), ih h.2, List.cons_append]

theorem nodup_middle {m : List UInt8 × α} (h : ((l ++ m :: l').map Prod.fst).Nodup) :
    m.1 ∉ l.map Prod.fst := by
  rw [List.map_append, List.map_cons, List.nodup_append] at h
  intro hm
  exact h.2.2 m.1 hm m.1 List.mem_cons_self rfl

/-- Members with distinct keys that are put into a map one after another. -/
theorem foldl_insert_perm (l l' : List (List UInt8 × α))
    (h : ((l ++ l').map Prod.fst).Nodup) :
    (l'.foldl (fun ms m => insert m.1 m.2 ms) l).Perm (l ++ l') := by
  induction l' generalizing l with
  | nil => simp
  | cons m l' ih =>
    have hinsert : (insert m.1 m.2 l ++ l').Perm (l ++ m :: l') :=
      ((insert_perm (nodup_middle h)).append_right l').trans List.perm_middle.symm
    rw [List.foldl_cons]
    exact (ih _ ((hinsert.map Prod.fst).nodup_iff.mpr h)).trans hinsert

theorem foldl_assign (h : ((l ++ l').map Prod.fst).Nodup) :
    l'.foldl (fun ms m => assign m.1 m.2 ms) l = l ++ l' := by
  induction l' generalizing l with
  | nil => simp
  | cons m l' ih =>
    rw [List.foldl_cons, assign_of_notMem (nodup_middle h), ih, List.append_assoc]
    · rfl
    · simpa using h

/-- A list of members is known from its keys and what is in it. -/
theorem eq_of_perm (hperm : l.Perm l') (hkeys : l.map Prod.fst = l'.map Prod.fst)
    (hnodup : (l'.map Prod.fst).Nodup) : l = l' := by
  induction l generalizing l' with
  | nil => exact (List.nil_perm.mp hperm).symm
  | cons a l ih =>
    cases l' with
    | nil => simp at hkeys
    | cons b l' =>
      rw [List.map_cons, List.map_cons, List.cons.injEq] at hkeys
      rw [List.map_cons, List.nodup_cons] at hnodup
      have hab : a = b := by
        rcases List.mem_cons.mp (hperm.mem_iff.mp List.mem_cons_self) with hab | hmem
        · exact hab
        · exact absurd (hkeys.1 ▸ List.mem_map_of_mem hmem) hnodup.1
      subst hab
      rw [ih ((List.perm_cons a).mp hperm) hkeys.2 hnodup.2]

end Members

/-! ### The loops -/

/-- What a loop makes of the elements: without any the value stays null. -/
def container {α β : Type} (null : β) (make : List α → β) : List α → β
  | [] => null
  | a :: l => make (a :: l)

theorem container_of_ne {α β : Type} (null : β) (make : List α → β) {l : List α} (h : l ≠ []) :
    container null make l = make l := by
  cases l with
  | nil => exact absurd rfl h
  | cons a l => rfl

def Json.ofItems : List Json → Json := container .null .array

def Json.ofMembers : List (List UInt8 × Json) → Json := container .null .object

def Yaml.ofItems : List Yaml → Yaml := container .null .sequence

def Yaml.ofMembers : List (List UInt8 × Yaml) → Yaml := container .null .map

theorem append_ofItems (items : List Json) (v : Json) :
    (Json.ofItems items).append v = some (.ofItems (items ++ [v])) := by
  cases items <;> rfl

theorem push_ofItems (items : List Yaml) (y : Yaml) :
    (Yaml.ofItems items).pushBack y = some (.ofItems (items ++ [y])) := by
  cases items <;> rfl

theorem set_ofMembers (members : List (List UInt8 × Json)) (key : List UInt8) (v : Json) :
    (Json.ofMembers members).set key v = some (.ofMembers (insert key v members)) := by
  have hne : insert key v members ≠ [] := by
    unfold insert
    split
    · simp
    · split_ifs <;> simp
  rw [show Json.ofMembers (insert key v members) = _ from container_of_ne _ _ hne]
  cases members <;> rfl

theorem put_ofMembers (members : List (List UInt8 × Yaml)) (key : List UInt8) (y : Yaml) :
    (Yaml.ofMembers members).set key y = some (.ofMembers (assign key y members)) := by
  have hne : assign key y members ≠ [] := by
    unfold assign
    split
    · simp
    · split_ifs <;> simp
  rw [show Yaml.ofMembers (assign key y members) = _ from container_of_ne _ _ hne]
  cases members <;> rfl

theorem appendAll_eq {items : List Yaml} {f : Yaml → Json}
    (h : ∀ y ∈ items, yamlToJson y = some (f y)) (js : List Json) :
    appendAll items (.ofItems js) = some (.ofItems (js ++ items.map f)) := by
  induction items generalizing js with
  | nil => rw [appendAll, List.map_nil, List.append_nil]
  | cons y items ih =>
    rw [List.forall_mem_cons] at h
    rw [appendAll, h.1, Option.bind_some, append_ofItems, Option.bind_some, ih h.2,
      List.append_assoc]
    rfl

theorem setAll_eq {members : List (List UInt8 × Yaml)} {f : Yaml → Json}
    (h : ∀ m ∈ members, yamlToJson m.2 = some (f m.2)) (js : List (List UInt8 × Json)) :
    setAll members (.ofMembers js) = some (.ofMembers
      ((members.map fun m => (m.1, f m.2)).foldl (fun ms m => insert m.1 m.2 ms) js)) := by
  induction members generalizing js with
  | nil => rw [setAll, List.map_nil, List.foldl_nil]
  | cons m members ih =>
    rw [List.forall_mem_cons] at h
    rw [setAll, h.1, Option.bind_some, set_ofMembers, Option.bind_some, ih h.2]
    rfl

theorem pushAll_eq {items : List Json} {f : Json → Yaml}
    (h : ∀ j ∈ items, jsonToYaml j = some (f j)) (n : ℕ) (ys : List Yaml) :
    pushAll items n (.ofItems ys) = some (.ofItems (ys ++ (items.take n).map f)) := by
  induction items generalizing n ys with
  | nil => simp [pushAll]
  | cons j items ih =>
    rw [List.forall_mem_cons] at h
    cases n with
    | zero => simp [pushAll]
    | succ n =>
      rw [pushAll, h.1, Option.bind_some, push_ofItems, Option.bind_some, ih h.2, List.append_assoc]
      rfl

theorem putAll_eq {members : List (List UInt8 × Json)} {f : Json → Yaml}
    (h : ∀ m ∈ members, jsonToYaml m.2 = some (f m.2)) (ys : List (List UInt8 × Yaml)) :
    putAll members (.ofMembers ys) = some (.ofMembers
      ((members.map fun m => (m.1, f m.2)).foldl (fun ms m => assign m.1 m.2 ms) ys)) := by
  induction members generalizing ys with
  | nil => rw [putAll, List.map_nil, List.foldl_nil]
  | cons m members ih =>
    rw [List.forall_mem_cons] at h
    rw [putAll, h.1, Option.bind_some, put_ofMembers, Option.bind_some, ih h.2]
    rfl

/-! ### There and back -/

/-- The value that a tree becomes, and the tree that it comes back as. -/
def Yaml.json (y : Yaml) : Json := (yamlToJson y).getD .null

def Json.yaml (j : Json) : Yaml := (jsonToYaml j).getD .null

def Yaml.back (y : Yaml) : Yaml := y.json.yaml

/-- Both functions return true, and the tree comes back as far as it is full. -/
structure Comes (y : Yaml) : Prop where
  json : yamlToJson y = some y.json
  yaml : jsonToYaml y.json = some y.back
  same : Same y.back y ↔ Full y

theorem comes_of_eq {y y' : Yaml} {j : Json} (hj : yamlToJson y = some j)
    (hy : jsonToYaml j = some y') (hsame : Same y' y ↔ Full y) : Comes y := by
  have hjson : y.json = j := by rw [Yaml.json, hj, Option.getD_some]
  have hback : y.back = y' := by rw [Yaml.back, hjson, Json.yaml, hy, Option.getD_some]
  refine ⟨by rw [hj, hjson], by rw [hjson, hy, hback], ?_⟩
  rwa [hback]

theorem comes_scalar (text : List UInt8) : Comes (.scalar text) := by
  have hjson : yamlToJson (.scalar text) = some (.string text) := by rw [yamlToJson]
  have hyaml : jsonToYaml (.string text) = some (.scalar text) := by
    show (Json.asString (.string text)).map Yaml.scalar = _
    rfl
  exact comes_of_eq hjson hyaml (iff_of_true (.scalar text) (.scalar text))

theorem passes_of_lt {items : List Json} (h : items.length < 2 ^ 31) :
    passes items = items.length := by
  have hint : (Int32.ofNat items.length).toInt = items.length := Int32.toInt_ofNat_of_lt h
  show (Int32.ofNat items.length).toInt.toNat = _
  rw [hint, Int.toNat_natCast]

theorem passes_lt (items : List Json) : passes items < 2 ^ 31 := by
  have hlt := (UInt32.ofNat items.length).toInt32.toInt_lt
  unfold passes
  omega

theorem not_same_nil {y : Yaml} (h : ∀ text, y ≠ .scalar text) : ¬Same (.scalar []) y := by
  intro hsame
  cases hsame
  exact h [] rfl

/-- What becomes null comes back as the empty scalar. -/
theorem comes_of_null {y : Yaml} (hjson : yamlToJson y = some .null)
    (hscalar : ∀ text, y ≠ .scalar text) (hfull : ¬Full y) : Comes y := by
  have hyaml : jsonToYaml .null = some (.scalar []) := rfl
  exact comes_of_eq hjson hyaml (iff_of_false (not_same_nil hscalar) hfull)

theorem same_sequence_iff {xs ys : List Yaml} :
    Same (.sequence xs) (.sequence ys) ↔
      xs.length = ys.length ∧ ∀ p ∈ xs.zip ys, Same p.1 p.2 := by
  constructor
  · intro h
    cases h with
    | sequence hlength hzip => exact ⟨hlength, hzip⟩
  · exact fun h => .sequence h.1 h.2

theorem zip_map_self {α β : Type} (f : α → β) (l : List α) :
    (l.map f).zip l = l.map fun a => (f a, a) := by
  induction l with
  | nil => rfl
  | cons a l ih => rw [List.map_cons, List.zip_cons_cons, ih, List.map_cons]

theorem same_back_iff {items : List Yaml} (h : ∀ y ∈ items, Comes y) :
    Same (.sequence (items.map Yaml.back)) (.sequence items) ↔ ∀ y ∈ items, Full y := by
  rw [same_sequence_iff, zip_map_self, List.forall_mem_map]
  constructor
  · exact fun hsame y hy => (h y hy).same.mp (hsame.2 y hy)
  · exact fun hfull => ⟨List.length_map _, fun y hy => (h y hy).same.mpr (hfull y hy)⟩

theorem json_sequence {items : List Yaml} (hnil : items ≠ []) (h : ∀ y ∈ items, Comes y) :
    yamlToJson (.sequence items) = some (.array (items.map Yaml.json)) := by
  have hitems : Json.ofItems (items.map Yaml.json) = .array (items.map Yaml.json) :=
    container_of_ne _ _ (by simpa using hnil)
  rw [yamlToJson, ← hitems]
  exact appendAll_eq (fun y hy => (h y hy).json) []

/-- As many elements as there are passes come back. -/
theorem yaml_array {items : List Yaml} (h : ∀ y ∈ items, Comes y) :
    jsonToYaml (.array (items.map Yaml.json)) =
      some (.ofItems ((items.map Yaml.back).take (passes (items.map Yaml.json)))) := by
  have hitems : ∀ j ∈ items.map Yaml.json, jsonToYaml j = some j.yaml := by
    rw [List.forall_mem_map]
    exact fun y hy => (h y hy).yaml
  have hpush := pushAll_eq hitems (passes (items.map Yaml.json)) []
  rw [List.nil_append, List.map_take, List.map_map] at hpush
  rw [jsonToYaml]
  exact hpush

/-- A list that is shorter is another sequence. -/
theorem not_same_of_length {xs ys : List Yaml} (h : xs.length < ys.length) :
    ¬Same (Yaml.ofItems xs) (.sequence ys) := by
  intro hsame
  cases xs with
  | nil => cases hsame
  | cons x xs =>
    have hlength := (same_sequence_iff.mp hsame).1
    omega

theorem comes_sequence {items : List Yaml} (h : ∀ y ∈ items, Comes y) :
    Comes (.sequence items) := by
  by_cases hnil : items = []
  · subst hnil
    apply comes_of_null rfl (fun _ => Yaml.noConfusion)
    intro hfull
    cases hfull with
    | sequence hne _ _ => exact hne rfl
  apply comes_of_eq (json_sequence hnil h) (yaml_array h)
  by_cases hlt : items.length < 2 ^ 31
  · have hpasses : passes (items.map Yaml.json) = (items.map Yaml.back).length := by
      rw [passes_of_lt (by rwa [List.length_map]), List.length_map, List.length_map]
    have hitems : Yaml.ofItems (items.map Yaml.back) = .sequence (items.map Yaml.back) :=
      container_of_ne _ _ (by simpa using hnil)
    rw [hpasses, List.take_length, hitems, same_back_iff h]
    constructor
    · exact fun hfull => .sequence hnil hlt hfull
    · intro hfull
      cases hfull with
      | sequence _ _ hitems => exact hitems
  · apply iff_of_false
    · have hpasses := passes_lt (items.map Yaml.json)
      apply not_same_of_length
      rw [List.length_take]
      omega
    · intro hfull
      cases hfull with
      | sequence _ hlength _ => exact hlt hlength

theorem keys_map {α β : Type} (f : α → β) (l : List (List UInt8 × α)) :
    (l.map fun m => (m.1, f m.2)).map Prod.fst = l.map Prod.fst := by
  rw [List.map_map]
  rfl

/-- The values are compared key by key, in whatever order the members have come back. -/
theorem same_map_iff {members ys : List (List UInt8 × Yaml)} (h : ∀ m ∈ members, Comes m.2)
    (hnodup : (members.map Prod.fst).Nodup)
    (hperm : ys.Perm (members.map fun m => (m.1, m.2.back))) :
    Same (.map ys) (.map members) ↔ ∀ m ∈ members, Full m.2 := by
  constructor
  · intro hsame
    cases hsame with
    | @map _ xs' _ hperm' hkeys hzip =>
      have hxs' : xs' = members.map fun m => (m.1, m.2.back) := by
        apply eq_of_perm (hperm'.symm.trans hperm)
        · rw [hkeys, keys_map]
        · rwa [keys_map]
      rw [hxs', zip_map_self, List.forall_mem_map] at hzip
      exact fun m hm => (h m hm).same.mp (hzip m hm)
  · intro hfull
    apply Same.map hperm (keys_map Yaml.back members)
    rw [zip_map_self, List.forall_mem_map]
    exact fun m hm => (h m hm).same.mpr (hfull m hm)

/-- The object has the members in the order of the keys. -/
theorem json_map {members : List (List UInt8 × Yaml)} (hnil : members ≠ [])
    (hnodup : (members.map Prod.fst).Nodup) (h : ∀ m ∈ members, Comes m.2) :
    ∃ object, yamlToJson (.map members) = some (.object object) ∧
      object.Perm (members.map fun m => (m.1, m.2.json)) := by
  have hset := setAll_eq (f := Yaml.json) (fun m hm => (h m hm).json) []
  have hperm := foldl_insert_perm [] (members.map fun m => (m.1, m.2.json))
    (by rwa [List.nil_append, keys_map])
  rw [List.nil_append] at hperm
  generalize (members.map fun m => (m.1, m.2.json)).foldl (fun ms m => insert m.1 m.2 ms) [] =
    object at hset hperm
  have hne : object ≠ [] := by
    rintro rfl
    exact hnil (by simpa using hperm)
  have hobject : Json.ofMembers object = .object object := container_of_ne _ _ hne
  refine ⟨object, ?_, hperm⟩
  rw [yamlToJson, ← hobject]
  exact hset

theorem yaml_object {object : List (List UInt8 × Json)} (hne : object ≠ [])
    (hnodup : (object.map Prod.fst).Nodup) (h : ∀ m ∈ object, jsonToYaml m.2 = some m.2.yaml) :
    jsonToYaml (.object object) = some (.map (object.map fun m => (m.1, m.2.yaml))) := by
  have hput := putAll_eq h []
  rw [foldl_assign (by rwa [List.nil_append, keys_map]), List.nil_append] at hput
  rw [jsonToYaml]
  exact hput.trans (congrArg some (container_of_ne _ _ (by simpa using hne)))

theorem comes_map {members : List (List UInt8 × Yaml)} (hnodup : (members.map Prod.fst).Nodup)
    (h : ∀ m ∈ members, Comes m.2) : Comes (.map members) := by
  by_cases hnil : members = []
  · subst hnil
    apply comes_of_null rfl (fun _ => Yaml.noConfusion)
    intro hfull
    cases hfull with
    | map hne _ => exact hne rfl
  obtain ⟨object, hjson, hobject⟩ := json_map hnil hnodup h
  have hne : object ≠ [] := by
    rintro rfl
    exact hnil (by simpa using hobject)
  have hkeys : (object.map Prod.fst).Nodup := by
    rw [(hobject.map Prod.fst).nodup_iff]
    rwa [keys_map]
  have hmembers : ∀ m ∈ object, jsonToYaml m.2 = some m.2.yaml := by
    intro m hm
    obtain ⟨m', hm', rfl⟩ := List.mem_map.mp (hobject.mem_iff.mp hm)
    exact (h m' hm').yaml
  have hperm := hobject.map fun m => (m.1, m.2.yaml)
  rw [List.map_map] at hperm
  apply comes_of_eq hjson (yaml_object hne hkeys hmembers)
  rw [same_map_iff h hnodup hperm]
  constructor
  · exact fun hfull => .map hnil hfull
  · intro hfull
    cases hfull with
    | map _ hmembers => exact hmembers

theorem comes {y : Yaml} (h : Built y) : Comes y := by
  induction h with
  | scalar text => exact comes_scalar text
  | sequence _ ih => exact comes_sequence ih
  | map hnodup _ ih => exact comes_map hnodup ih

theorem comesBack_iff (y : Yaml) (hy : Built y) : ComesBack y ↔ Full y := by
  have h := comes hy
  rw [← h.same]
  constructor
  · rintro ⟨j, y', hj, hy', hsame⟩
    obtain rfl := Option.some.inj (h.json.symm.trans hj)
    obtain rfl := Option.some.inj (h.yaml.symm.trans hy')
    exact hsame
  · exact fun hsame => ⟨_, _, h.json, h.yaml, hsame⟩

/-- `{b: [x], a: y}` comes back with `a` first. -/
theorem comesBack_iff_members :
    ComesBack (.map [([98], .sequence [.scalar [120]]), ([97], .scalar [121])]) := by
  refine (comesBack_iff _ (.map (by decide) ?_)).mpr (.map (by decide) ?_)
  · rw [List.forall_mem_cons, List.forall_mem_singleton]
    exact ⟨.sequence (List.forall_mem_singleton.mpr (.scalar [120])), .scalar [121]⟩
  · rw [List.forall_mem_cons, List.forall_mem_singleton]
    have hitems : ∀ y ∈ [Yaml.scalar [120]], Full y := List.forall_mem_singleton.mpr (.scalar [120])
    exact ⟨.sequence (by simp) (by decide) hitems, .scalar [121]⟩

/-- `[]` comes back as an empty scalar. -/
theorem not_comesBack_of_nil : yamlToJson (.sequence []) = some .null ∧
    jsonToYaml .null = some (.scalar []) ∧ ¬ComesBack (.sequence []) := by
  refine ⟨rfl, rfl, ?_⟩
  rintro ⟨j, y, hj, hy, hsame⟩
  obtain rfl := Option.some.inj hj
  obtain rfl := Option.some.inj hy
  exact not_same_nil (fun _ => Yaml.noConfusion) hsame

end Muhui.YamlJson
