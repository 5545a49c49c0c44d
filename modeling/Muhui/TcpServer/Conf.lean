/-
  The conversions between `TcpServerConf` and its configuration text (`tcp_server.h`), with those of
  a map of strings (`config.h`).

  `args` is written as a node of the tree, a map or an empty sequence, but it is read as the text of
  a scalar, which is empty where there is none.  So what comes back has no `args`
  (`ofNode_toNode`).

  `emit` and `load` are those of yaml-cpp, and `asInt` reads a number from a scalar.
-/
import Muhui.Config.Document
import Muhui.Container.RankedMap
import Mathlib.Data.Char

namespace Muhui.TcpServer

open Muhui.Config (Node Members)

/-- `std::map<std::string, std::string>` -/
abbrev Args := RankedMap (fun key : List Char => key) (List Char)

structure TcpServerConf where
  address : List (List Char)
  keepalive : Int32
  timeout : Int32
  ssl : Int32
  id : List Char
  type : List Char
  name : List Char
  cert_file : List Char
  key_file : List Char
  accept_worker : List Char
  io_worker : List Char
  process_worker : List Char
  args : Args
  deriving DecidableEq

/-- `TcpServerConf conf;` -/
def TcpServerConf.default : TcpServerConf :=
  { address := []
    keepalive := 0
    timeout := 1000 * 2 * 60
    ssl := 0
    id := []
    type := "http".toList
    name := []
    cert_file := []
    key_file := []
    accept_worker := []
    io_worker := []
    process_worker := []
    args := .empty }

/-- The text of a number. -/
def intText (v : Int32) : List Char :=
  match v.toInt with
  | .ofNat n => Nat.toDigits 10 n
  | .negSucc n => '-' :: Nat.toDigits 10 (n + 1)

variable (emit : Node → List Char) (load : List Char → Option (Option Node))
  (asInt : List Char → Option Int32)

/-! ### The map -/

namespace Args

/-- The node of `LexcalCast<std::map<std::string, std::string>, std::string>`, a sequence that
becomes a map with the first key. The texts of the values are loaded, which may throw. -/
def toNode (map : Args) : Option Node :=
  match map.entries with
  | [] => some (.sequence [])
  | i :: rest => do
    let members ← (i :: rest).foldlM
      (fun m i => (load i.2).map fun value => m.assign i.1 (value.getD .null)) Members.nil
    some (.map members)

/-- `LexcalCast<std::map<std::string, std::string>, std::string>` -/
def toText (map : Args) : Option (List Char) := (toNode load map).map emit

/-- `LexcalCast<std::string, std::map<std::string, std::string>>`; the elements of a sequence have
no keys. -/
def ofText (v : List Char) : Option Args :=
  (load v).bind fun
    | some (.map members) =>
      some (members.toList.foldl (fun map it =>
        if (map.find it.1).isSome then map else map.insert it.1 (emit it.2)) .empty)
    | some (.sequence (_ :: _)) => none
    | _ => some .empty

end Args

/-! ### The record -/

namespace TcpServerConf

/-- The assignments to the node before the loop. -/
def toFields (conf : TcpServerConf) (args : Node) : List (List Char × Node) :=
  [("id".toList, .scalar conf.id),
    ("type".toList, .scalar conf.type),
    ("name".toList, .scalar conf.name),
    ("keepalive".toList, .scalar (intText conf.keepalive)),
    ("timeout".toList, .scalar (intText conf.timeout)),
    ("ssl".toList, .scalar (intText conf.ssl)),
    ("cert_file".toList, .scalar conf.cert_file),
    ("key_file".toList, .scalar conf.key_file),
    ("accept_worker".toList, .scalar conf.accept_worker),
    ("io_worker".toList, .scalar conf.io_worker),
    ("process_worker".toList, .scalar conf.process_worker),
    ("args".toList, args)]

/-- The node of a `conf` whose `args` are that node. -/
def toMembers (conf : TcpServerConf) (args : Node) : Members :=
  (conf.address.map Node.scalar).foldl (fun node i => node.pushBack "address".toList i)
    (Members.nil.assignAll (conf.toFields args))

/-- The node of `LexcalCast<TcpServerConf, std::string>`. -/
def toNode (conf : TcpServerConf) : Option Node := do
  let text ← conf.args.toText emit load
  let args ← load text
  some (.map (conf.toMembers (args.getD .null)))

/-- `LexcalCast<TcpServerConf, std::string>` -/
def toText (conf : TcpServerConf) : Option (List Char) := (conf.toNode emit load).map emit

/-- What is read from a document. -/
def ofNode (node : Option Node) : Option TcpServerConf := do
  let conf := TcpServerConf.default
  let id ← Node.stringOr "id".toList conf.id node
  let type ← Node.stringOr "type".toList conf.type node
  let keepalive ← Node.intOr asInt "keepalive".toList conf.keepalive node
  let timeout ← Node.intOr asInt "timeout".toList conf.timeout node
  let name ← Node.stringOr "name".toList conf.name node
  let ssl ← Node.intOr asInt "ssl".toList conf.ssl node
  let cert_file ← Node.stringOr "cert_file".toList conf.cert_file node
  let key_file ← Node.stringOr "key_file".toList conf.key_file node
  let accept_worker ← Node.string "accept_worker".toList node
  let io_worker ← Node.string "io_worker".toList node
  let process_worker ← Node.string "process_worker".toList node
  let args ← Args.ofText emit load (← Node.stringOr "args".toList [] node)
  let address ← (← Node.get "address".toList node).elim (some []) fun address =>
    address.elements.mapM fun i => i.bind Node.asString
  some
    { address := address
      keepalive := keepalive
      timeout := timeout
      ssl := ssl
      id := id
      type := type
      name := name
      cert_file := cert_file
      key_file := key_file
      accept_worker := accept_worker
      io_worker := io_worker
      process_worker := process_worker
      args := args }

/-- `LexcalCast<std::string, TcpServerConf>` -/
def ofText (v : List Char) : Option TcpServerConf := (load v).bind (ofNode emit load asInt)

end TcpServerConf

/-! ### Round trip -/

variable {emit load asInt}

theorem Args.toNode_empty {map : Args} (h : map.entries = []) :
    map.toNode load = some (.sequence []) := by
  unfold Args.toNode
  rw [h]

/-- The node of `args` is never a scalar. -/
theorem Args.asString_of_toNode {map : Args} {node : Node} (h : map.toNode load = some node) :
    node.asString = none := by
  unfold Args.toNode at h
  split at h
  · obtain rfl := Option.some.inj h
    rfl
  · rw [Option.bind_eq_bind, Option.bind_eq_some_iff] at h
    obtain ⟨members, _, hmembers⟩ := h
    obtain rfl := Option.some.inj hmembers
    rfl

namespace TcpServerConf

/-- The keys that are assigned before the loop. -/
def keys : List (List Char) := (TcpServerConf.default.toFields .null).map Prod.fst

variable {conf : TcpServerConf} {args : Node}

theorem keys_toFields (conf : TcpServerConf) (args : Node) :
    (conf.toFields args).map Prod.fst = keys := rfl

theorem find_toMembers {key : List Char} {value : Node}
    (hmem : (key, value) ∈ conf.toFields args) :
    (conf.toMembers args).find key = some value := by
  have hnodup : ((conf.toFields args).map Prod.fst).Nodup := by
    rw [keys_toFields]
    decide
  have hkey : key ∈ keys := keys_toFields conf args ▸ List.mem_map_of_mem hmem
  have hne : "address".toList ≠ key := fun h => absurd (h ▸ hkey) (by decide)
  exact (Members.find_foldl_pushBack_of_ne hne _ _).trans (Members.find_assignAll hnodup hmem _)

/-- The addresses are read from the sequence, or from nothing if there are none. -/
theorem address_toMembers (conf : TcpServerConf) (args : Node) :
    (((conf.toMembers args).find "address".toList).elim (some []) fun address =>
      address.elements.mapM fun i => i.bind Node.asString) = some conf.address := by
  have hnone : (Members.nil.assignAll (conf.toFields args)).find "address".toList = none := by
    have hkeys : "address".toList ∉ (conf.toFields args).map Prod.fst := by
      rw [keys_toFields]
      decide
    rw [Members.find_assignAll_of_notMem hkeys]
    rfl
  rw [toMembers, Members.find_foldl_pushBack _ hnone]
  split_ifs with hnil
  · rw [List.map_eq_nil_iff.mp hnil]
    rfl
  · exact Node.mapM_elements_scalar conf.address

/-- What is read from the tree that is written: everything but `args`. -/
theorem ofNode_toMembers (hempty : load [] = some none)
    (hint : ∀ v ∈ [conf.keepalive, conf.timeout, conf.ssl], asInt (intText v) = some v)
    (hargs : args.asString = none) :
    ofNode emit load asInt (some (.map (conf.toMembers args))) =
      some { conf with args := .empty } := by
  have htext : Args.ofText emit load [] = some .empty := by
    rw [Args.ofText, hempty]
    rfl
  have hfields : ∀ f ∈ conf.toFields args, (conf.toMembers args).find f.1 = some f.2 :=
    fun f hf => find_toMembers hf
  simp only [toFields, List.forall_mem_cons] at hfields
  obtain ⟨hid, htype, hname, hkeepalive, htimeout, hssl, hcert_file, hkey_file, haccept_worker,
    hio_worker, hprocess_worker, hnode, -⟩ := hfields
  simp only [List.forall_mem_cons] at hint
  obtain ⟨hkeepalive', htimeout', hssl', -⟩ := hint
  unfold ofNode
  dsimp only [Option.bind_eq_bind]
  rw [Node.stringOr_of_find hid, Option.bind_some, Node.stringOr_of_find htype, Option.bind_some,
    Node.intOr_of_find hkeepalive hkeepalive', Option.bind_some,
    Node.intOr_of_find htimeout htimeout', Option.bind_some,
    Node.stringOr_of_find hname, Option.bind_some,
    Node.intOr_of_find hssl hssl', Option.bind_some,
    Node.stringOr_of_find hcert_file, Option.bind_some,
    Node.stringOr_of_find hkey_file, Option.bind_some,
    Node.string_of_find haccept_worker, Option.bind_some,
    Node.string_of_find hio_worker, Option.bind_some,
    Node.string_of_find hprocess_worker, Option.bind_some,
    -- the text of `args` is the default
    Node.stringOr_of_asString hnode hargs, Option.bind_some, htext, Option.bind_some,
    Node.get_map, Option.bind_some, address_toMembers, Option.bind_some]

/-- A `conf` comes back from its text exactly when it has no `args`. -/
theorem ofText_toText_eq_iff_args (hempty : load [] = some none)
    (hint : ∀ v ∈ [conf.keepalive, conf.timeout, conf.ssl], asInt (intText v) = some v)
    (hargs : ∀ node, conf.args.toNode load = some node → load (emit node) = some (some node))
    (hload : ∀ node, conf.toNode emit load = some node → load (emit node) = some (some node)) :
    (conf.toText emit load).bind (ofText emit load asInt) = some conf ↔ conf.args = .empty := by
  have hentries : conf.args = .empty ↔ conf.args.entries = [] :=
    ⟨fun h => h ▸ rfl, fun h => RankedMap.ext_find fun k => by rw [RankedMap.find, h]; rfl⟩
  cases hnode : conf.args.toNode load with
  | none =>
    -- a value of `args` cannot be loaded, and there is no text
    have htext : conf.toText emit load = none := by
      unfold toText toNode Args.toText
      rw [hnode]
      rfl
    rw [htext, Option.bind_none]
    refine iff_of_false nofun fun h => ?_
    cases hnode.symm.trans (Args.toNode_empty (hentries.mp h))
  | some node =>
    have htree : conf.toNode emit load = some (.map (conf.toMembers node)) := by
      unfold toNode Args.toText
      rw [hnode, Option.map_some, Option.bind_eq_bind, Option.bind_some, hargs node hnode]
      rfl
    rw [toText, htree, Option.map_some, Option.bind_some, ofText, hload _ htree, Option.bind_some,
      ofNode_toMembers hempty hint (Args.asString_of_toNode hnode), Option.some_inj]
    exact ⟨fun h => (congrArg TcpServerConf.args h).symm, fun h => h ▸ rfl⟩

/-- The number that the digits stand for, if it fits. -/
def decimal (text : List Char) : Option Int32 :=
  if text ≠ [] ∧ text.all Char.isDigit then
    let v := text.foldl (fun v c => 10 * v + (c.toNat - '0'.toNat)) 0
    if v < 2147483648 then some (.ofNat v) else none
  else none

/-- A server with one address and the texts of its tree and of its `args`. -/
def plain : TcpServerConf :=
  { TcpServerConf.default with address := ["0.0.0.0:80".toList] }

def plainText : List Char :=
  "id: \"\"\ntype: http\nname: \"\"\nkeepalive: 0\ntimeout: 120000\nssl: 0\n".toList ++
    "cert_file: \"\"\nkey_file: \"\"\naccept_worker: \"\"\nio_worker: \"\"\n".toList ++
    "process_worker: \"\"\nargs:\n  []\naddress:\n  - 0.0.0.0:80".toList

def emitPlain : Node → List Char
  | .sequence [] => "[]".toList
  | _ => plainText

def loadPlain (v : List Char) : Option (Option Node) :=
  if v = [] then some none
  else if v = "[]".toList then some (some (.sequence []))
  else if v = plainText then some (some (.map (plain.toMembers (.sequence []))))
  else none

set_option maxRecDepth 4000 in
theorem decimal_plain : ∀ v ∈ [plain.keepalive, plain.timeout, plain.ssl],
    decimal (intText v) = some v :=
  List.forall_mem_cons.mpr ⟨by decide,
    List.forall_mem_cons.mpr ⟨by decide, List.forall_mem_cons.mpr ⟨by decide, nofun⟩⟩⟩

set_option maxRecDepth 4000 in
/-- `ofText_toText_eq_iff_args` for a server without `args`. -/
theorem ofText_toText_eq_iff_plain :
    (plain.toText emitPlain loadPlain).bind (ofText emitPlain loadPlain decimal) = some plain ↔
      plain.args = .empty :=
  ofText_toText_eq_iff_args rfl decimal_plain
    (fun node h => by
      obtain rfl := Option.some.inj h
      exact (if_neg (by decide)).trans (if_pos rfl))
    (fun node h => by
      obtain rfl := Option.some.inj h
      exact (if_neg (by decide)).trans ((if_neg (by decide)).trans (if_pos rfl)))

/-- The server with an argument, the node of its `args`, and their texts. -/
def withArgs : TcpServerConf :=
  { plain with args := RankedMap.empty.insert "backlog".toList "128".toList }

def backlog : Node := .map (.cons "backlog".toList (.scalar "128".toList) .nil)

def backlogText : List Char := "backlog: 128".toList

def withArgsText : List Char :=
  "id: \"\"\ntype: http\nname: \"\"\nkeepalive: 0\ntimeout: 120000\nssl: 0\n".toList ++
    "cert_file: \"\"\nkey_file: \"\"\naccept_worker: \"\"\nio_worker: \"\"\n".toList ++
    "process_worker: \"\"\nargs:\n  backlog: 128\naddress:\n  - 0.0.0.0:80".toList

/-- The two trees and the values of `args` are loaded as they have been written. -/
def LoadsWithArgs (emit : Node → List Char) (load : List Char → Option (Option Node)) : Prop :=
  load [] = some none ∧ load "128".toList = some (some (.scalar "128".toList)) ∧
    load (emit backlog) = some (some backlog) ∧
    load (emit (.map (withArgs.toMembers backlog))) =
      some (some (.map (withArgs.toMembers backlog)))

def emitWithArgs : Node → List Char
  | .map (.cons _ _ .nil) => backlogText
  | _ => withArgsText

def loadWithArgs (v : List Char) : Option (Option Node) :=
  if v = [] then some none
  else if v = "128".toList then some (some (.scalar v))
  else if v = backlogText then some (some backlog)
  else if v = withArgsText then some (some (.map (withArgs.toMembers backlog)))
  else none

set_option maxRecDepth 4000 in
/-- Whatever the texts are, what comes back is the server without the argument. -/
theorem ofText_toText_withArgs :
    LoadsWithArgs emitWithArgs loadWithArgs ∧ withArgs ≠ plain ∧
      ∀ emit load, LoadsWithArgs emit load →
        (withArgs.toText emit load).bind (ofText emit load decimal) = some plain := by
  refine ⟨⟨rfl, ?_, ?_, ?_⟩, fun h => ?_, ?_⟩
  · exact (if_neg (by decide)).trans (if_pos rfl)
  · exact (if_neg (by decide)).trans ((if_neg (by decide)).trans (if_pos rfl))
  · exact (if_neg (by decide)).trans
      ((if_neg (by decide)).trans ((if_neg (by decide)).trans (if_pos rfl)))
  · exact absurd (congrArg TcpServerConf.args h) (by decide)
  rintro emit load ⟨hempty, hvalue, hargs, hload⟩
  have hentries : withArgs.args.entries = [("backlog".toList, "128".toList)] := rfl
  have hnode : withArgs.args.toNode load = some backlog := by
    unfold Args.toNode
    rw [hentries]
    dsimp only
    rw [List.foldlM_cons, hvalue]
    rfl
  have htree : withArgs.toNode emit load = some (.map (withArgs.toMembers backlog)) := by
    unfold toNode Args.toText
    rw [hnode, Option.map_some, Option.bind_eq_bind, Option.bind_some, hargs]
    rfl
  have hint : ∀ v ∈ [withArgs.keepalive, withArgs.timeout, withArgs.ssl],
      decimal (intText v) = some v := decimal_plain
  rw [toText, htree, Option.map_some, Option.bind_some, ofText, hload, Option.bind_some,
    ofNode_toMembers hempty hint rfl]
  rfl

end TcpServerConf

end Muhui.TcpServer
