/-
  The conversions between `LogDefine` and its configuration text (`log.cc`).

  Each builds or reads a YAML tree field by field; fields that have their default are left out.  The
  level of an appender is written, but the other direction does not read it, so what comes back has
  no levels at its appenders (`LogDefine.ofText_toText_eq_iff`).

  `emit` and `load` are those of yaml-cpp.
-/
import Muhui.Config.Document
import Muhui.Log.Reload

namespace Muhui.Log

open Muhui.Config (Node Members)

/-! ### Levels -/

namespace Level

/-- `LogLevel::ToString` -/
def toString : Level → List Char
  | debug => "DEBUG".toList
  | info => "INFO".toList
  | warn => "WARN".toList
  | error => "ERROR".toList
  | fatal => "FATAL".toList
  | unkonw => "UNKNOW".toList

/-- `LogLevel::FromString` -/
def fromString (str : List Char) : Level :=
  if str = "debug".toList then debug
  else if str = "info".toList then info
  else if str = "warn".toList then warn
  else if str = "error".toList then error
  else if str = "fatal".toList then fatal
  else if str = "DEBUG".toList then debug
  else if str = "INFO".toList then info
  else if str = "WARN".toList then warn
  else if str = "ERROR".toList then error
  else if str = "FATAL".toList then fatal
  else unkonw

theorem fromString_toString (level : Level) : fromString level.toString = level := by
  cases level <;> decide

end Level

/-! ### `LexcalCast<LogDefine, std::string>` -/

namespace LogAppenderDefine

/-- The node `na` of the loop. -/
def toMembers (a : LogAppenderDefine) : Members :=
  let na := Members.nil
  let na :=
    if a.type = 1 then
      (na.assign "type".toList (.scalar "FileLogAppender".toList)).assign "file".toList
        (.scalar a.file.toList)
    else if a.type = 2 then na.assign "type".toList (.scalar "StdoutLogAppender".toList)
    else na
  let na :=
    if a.level = .unkonw then na else na.assign "level".toList (.scalar a.level.toString)
  if a.formatter.isEmpty then na else na.assign "formatter".toList (.scalar a.formatter.toList)

/-- A node with no keys is null. -/
def toNode (a : LogAppenderDefine) : Node :=
  match a.toMembers with
  | .nil => .null
  | na => .map na

end LogAppenderDefine

namespace LogDefine

/-- The node `n` before the loop. -/
def toFields (i : LogDefine) : Members :=
  let n := Members.nil.assign "name".toList (.scalar i.name.toList)
  let n := if i.level = .unkonw then n else n.assign "level".toList (.scalar i.level.toString)
  if i.formatter.isEmpty then n else n.assign "formatter".toList (.scalar i.formatter.toList)

/-- The node `n`. -/
def toMembers (i : LogDefine) : Members :=
  (i.appenders.map LogAppenderDefine.toNode).foldl
    (fun n na => n.pushBack "appenders".toList na) i.toFields

def toNode (i : LogDefine) : Node := .map i.toMembers

/-- `LexcalCast<LogDefine, std::string>` -/
def toText (emit : Node → List Char) (i : LogDefine) : List Char := emit i.toNode

end LogDefine

/-! ### `LexcalCast<std::string, LogDefine>` -/

namespace LogAppenderDefine

/-- One round of the loop: the define, or nothing where it goes on with the next. -/
def ofNode (a : Option Node) : Option (Option LogAppenderDefine) :=
  (Node.get "type".toList a).bind fun
    | none => some none
    | some type => type.asString.bind fun type =>
      if type = "FileLogAppender".toList then
        (Node.get "file".toList a).bind fun
          | none => some none
          | some file => file.asString.bind fun file =>
            (Node.stringAt "formatter".toList [] a).map fun formatter =>
              some
                { type := 1
                  level := .unkonw
                  formatter := String.ofList formatter
                  file := String.ofList file }
      else if type = "StdoutLogAppender".toList then
        (Node.stringAt "formatter".toList [] a).map fun formatter =>
          some
            { type := 2, level := .unkonw, formatter := String.ofList formatter, file := "" }
      else some none

/-- The loop. -/
def ofNodes : List (Option Node) → Option (List LogAppenderDefine)
  | [] => some []
  | a :: rest =>
    (ofNode a).bind fun lad => (ofNodes rest).map fun appenders => lad.toList ++ appenders

end LogAppenderDefine

namespace LogDefine

/-- The define that is read from a document. -/
def ofNode (n : Option Node) : Option LogDefine :=
  (Node.get "name".toList n).bind fun
    | none => none
    | some name => name.asString.bind fun name =>
      (Node.stringAt "level".toList [] n).bind fun level =>
        (Node.stringAt "formatter".toList [] n).bind fun formatter =>
          (Node.get "appenders".toList n).bind fun appenders =>
            (LogAppenderDefine.ofNodes ((appenders.map Node.elements).getD [])).map fun lads =>
              { name := String.ofList name
                level := .fromString level
                formatter := String.ofList formatter
                appenders := lads }

/-- `LexcalCast<std::string, LogDefine>` -/
def ofText (load : List Char → Option (Option Node)) (v : List Char) : Option LogDefine :=
  (load v).bind ofNode

end LogDefine

/-! ### Round trip -/

variable {a : LogAppenderDefine} {d : LogDefine}

/-- The appenders that the configuration has: files, and the standard output. -/
def LogAppenderDefine.Configurable (a : LogAppenderDefine) : Prop :=
  a.type = 1 ∨ a.type = 2 ∧ a.file = ""

namespace LogAppenderDefine

theorem find_type (h : a.Configurable) :
    a.toMembers.find "type".toList = some (.scalar
      (if a.type = 1 then "FileLogAppender".toList else "StdoutLogAppender".toList)) := by
  unfold toMembers
  dsimp only
  rw [Members.find_ite_of_ne (by decide), Members.find_ite_of_ne (by decide)]
  split_ifs with h₁ h₂
  · rw [Members.find_assign_of_ne (by decide), Members.find_assign_self]
  · exact Members.find_assign_self ..
  · exact absurd h (not_or.mpr ⟨h₁, fun h => h₂ h.1⟩)

theorem find_file :
    a.toMembers.find "file".toList = if a.type = 1 then some (.scalar a.file.toList) else none := by
  unfold toMembers
  dsimp only
  rw [Members.find_ite_of_ne (by decide), Members.find_ite_of_ne (by decide)]
  split_ifs with h₁ h₂
  · exact Members.find_assign_self ..
  · exact Members.find_assign_of_ne (by decide) ..
  · rfl

theorem find_formatter :
    a.toMembers.find "formatter".toList =
      if a.formatter.isEmpty then none else some (.scalar a.formatter.toList) := by
  have hnone : ∀ value file : Node,
      ((Members.nil.assign "type".toList value).assign "file".toList file).find
        "formatter".toList = none := fun value file => by
    rw [Members.find_assign_of_ne (by decide), Members.find_assign_of_ne (by decide)]
    rfl
  unfold toMembers
  dsimp only
  rw [Members.find_ite_self, Members.find_ite_of_ne (by decide)]
  congr 1
  split_ifs
  · exact hnone ..
  · exact Members.find_assign_of_ne (by decide) ..
  · rfl

theorem stringAt_formatter (a : LogAppenderDefine) :
    Node.stringAt "formatter".toList [] (some (.map a.toMembers)) = some a.formatter.toList :=
  Node.stringAt_of_find find_formatter fun h => by rw [String.isEmpty_iff.mp h]; rfl

theorem toNode_eq (h : a.Configurable) : a.toNode = .map a.toMembers := by
  have htype := find_type h
  unfold toNode
  split
  -- a node with a type is not null
  · next hnil =>
    rw [hnil] at htype
    cases htype
  · rfl

/-- The appender comes back without its level. -/
theorem ofNode_toNode (h : a.Configurable) :
    ofNode (some a.toNode) = some (some { a with level := .unkonw }) := by
  unfold ofNode
  rw [toNode_eq h, Node.get_map, find_type h, Option.bind_some]
  dsimp only
  rw [Node.asString, Option.bind_some]
  rcases h with h | ⟨h, hfile⟩
  · rw [if_pos h, if_pos rfl, Node.get_map, find_file, if_pos h, Option.bind_some]
    dsimp only
    rw [Node.asString, Option.bind_some, stringAt_formatter, Option.map_some,
      String.ofList_toList, String.ofList_toList, ← h]
  · have hone : a.type ≠ 1 := by omega
    rw [if_neg hone, if_neg (by decide), if_pos rfl, stringAt_formatter, Option.map_some,
      String.ofList_toList, ← h, ← hfile]

theorem ofNodes_toNode {as : List LogAppenderDefine} (h : ∀ a ∈ as, a.Configurable) :
    ofNodes ((as.map toNode).map some) =
      some (as.map fun a => { a with level := .unkonw }) := by
  induction as with
  | nil => rfl
  | cons a as ih =>
    rw [List.forall_mem_cons] at h
    rw [List.map_cons, List.map_cons, ofNodes, ofNode_toNode h.1, Option.bind_some, ih h.2]
    rfl

end LogAppenderDefine

namespace LogDefine

/-- The loop does not touch the other fields. -/
theorem find_toMembers {key : List Char} (h : "appenders".toList ≠ key) (d : LogDefine) :
    d.toMembers.find key = d.toFields.find key :=
  Members.find_foldl_pushBack_of_ne h _ _

theorem find_name (d : LogDefine) :
    d.toMembers.find "name".toList = some (.scalar d.name.toList) := by
  rw [find_toMembers (by decide), toFields]
  rw [Members.find_ite_of_ne (by decide), Members.find_ite_of_ne (by decide),
    Members.find_assign_self]

theorem find_level (d : LogDefine) :
    d.toMembers.find "level".toList =
      if d.level = .unkonw then none else some (.scalar d.level.toString) := by
  rw [find_toMembers (by decide), toFields]
  rw [Members.find_ite_of_ne (by decide), Members.find_ite_self,
    Members.find_assign_of_ne (by decide)]
  rfl

theorem find_formatter (d : LogDefine) :
    d.toMembers.find "formatter".toList =
      if d.formatter.isEmpty then none else some (.scalar d.formatter.toList) := by
  rw [find_toMembers (by decide), toFields]
  rw [Members.find_ite_self, Members.find_ite_of_ne (by decide),
    Members.find_assign_of_ne (by decide)]
  rfl

theorem find_appenders (d : LogDefine) :
    d.toMembers.find "appenders".toList =
      if d.appenders.map LogAppenderDefine.toNode = [] then none
      else some (.sequence (d.appenders.map LogAppenderDefine.toNode)) := by
  have hfields : d.toFields.find "appenders".toList = none := by
    rw [toFields, Members.find_ite_of_ne (by decide), Members.find_ite_of_ne (by decide),
      Members.find_assign_of_ne (by decide)]
    rfl
  exact Members.find_foldl_pushBack _ hfields

/-- A level that is left out is read as `UNKONW`. -/
theorem stringAt_level (d : LogDefine) :
    ∃ text, Node.stringAt "level".toList [] (some d.toNode) = some text ∧
      Level.fromString text = d.level := by
  rw [toNode, Node.stringAt, Node.get_map, find_level, Option.bind_some]
  split_ifs with h
  · exact ⟨[], rfl, h ▸ rfl⟩
  · exact ⟨_, rfl, Level.fromString_toString _⟩

theorem stringAt_formatter (d : LogDefine) :
    Node.stringAt "formatter".toList [] (some d.toNode) = some d.formatter.toList :=
  Node.stringAt_of_find d.find_formatter fun h => by rw [String.isEmpty_iff.mp h]; rfl

/-- What is read from the tree that is written: everything but the levels of the appenders. -/
theorem ofNode_toNode (h : ∀ a ∈ d.appenders, a.Configurable) :
    ofNode (some d.toNode) =
      some { d with appenders := d.appenders.map fun a => { a with level := .unkonw } } := by
  obtain ⟨text, htext, hlevel⟩ := d.stringAt_level
  have happenders : LogAppenderDefine.ofNodes
      (((d.toMembers.find "appenders".toList).map Node.elements).getD []) =
        some (d.appenders.map fun a => { a with level := .unkonw }) := by
    rw [← LogAppenderDefine.ofNodes_toNode h, find_appenders]
    split_ifs with hnil
    · rw [hnil]
      rfl
    · rfl
  unfold ofNode
  rw [htext, stringAt_formatter, toNode, Node.get_map, find_name, Option.bind_some]
  dsimp only
  rw [Node.asString, Option.bind_some, Option.bind_some, Option.bind_some, Node.get_map,
    Option.bind_some, happenders, Option.map_some, String.ofList_toList, String.ofList_toList,
    hlevel]

/-- A define comes back from its text exactly when no appender of it has a level. -/
theorem ofText_toText_eq_iff {emit : Node → List Char} {load : List Char → Option (Option Node)}
    (hload : load (emit d.toNode) = some (some d.toNode))
    (h : ∀ a ∈ d.appenders, a.type = 1 ∨ a.type = 2 ∧ a.file = "") :
    ofText load (toText emit d) = some d ↔ ∀ a ∈ d.appenders, a.level = .unkonw := by
  rw [ofText, toText, hload, Option.bind_some, ofNode_toNode h, Option.some_inj]
  constructor
  · intro heq
    have happenders : d.appenders.map (fun a => { a with level := .unkonw }) =
        d.appenders.map id := (congrArg appenders heq).trans (List.map_id _).symm
    intro a ha
    have hfixed := List.map_eq_map_iff.mp happenders a ha
    exact (congrArg LogAppenderDefine.level hfixed).symm
  · intro hlevel
    have happenders : d.appenders.map (fun a => { a with level := .unkonw }) =
        d.appenders.map id := List.map_eq_map_iff.mpr fun a ha => by rw [← hlevel a ha]; rfl
    rw [happenders, List.map_id]

/-- A logger with a file that takes errors only, and its text. -/
def errorsToFile : LogDefine :=
  { name := "root"
    level := .info
    formatter := ""
    appenders := [{ type := 1, level := .error, formatter := "", file := "error.txt" }] }

def errorsToFileText : List Char :=
  "name: root\nlevel: INFO\nappenders:\n  - type: FileLogAppender\n".toList ++
    "    file: error.txt\n    level: ERROR".toList

/-- `ofText_toText_eq_iff` for a logger that writes to the standard output. -/
theorem ofText_toText_eq_iff_stdout :
    let d : LogDefine :=
      { name := "root"
        level := .info
        formatter := ""
        appenders := [{ type := 2, level := .unkonw, formatter := "", file := "" }] }
    let text := "name: root\nlevel: INFO\nappenders:\n  - type: StdoutLogAppender".toList
    let load (v : List Char) : Option (Option Node) := if v = text then some d.toNode else none
    ofText load (toText (fun _ => text) d) = some d ↔ ∀ a ∈ d.appenders, a.level = .unkonw :=
  ofText_toText_eq_iff (if_pos rfl) (by decide)

/-- Whatever its text is, the file takes everything after the text has been read. -/
theorem ofText_toText_errorsToFile :
    (∀ a ∈ errorsToFile.appenders, a.type = 1 ∨ a.type = 2 ∧ a.file = "") ∧
      (∀ (emit : Node → List Char) (load : List Char → Option (Option Node)),
        load (emit errorsToFile.toNode) = some (some errorsToFile.toNode) →
          ofText load (toText emit errorsToFile) ≠ some errorsToFile) ∧
      ∃ (emit : Node → List Char) (load : List Char → Option (Option Node)),
        emit errorsToFile.toNode = errorsToFileText ∧
          load errorsToFileText = some (some errorsToFile.toNode) := by
  refine ⟨by decide, fun emit load hload h => ?_, fun _ => errorsToFileText,
    fun v => if v = errorsToFileText then some errorsToFile.toNode else none, rfl, if_pos rfl⟩
  have hread : ofNode (some errorsToFile.toNode) = _ :=
    ofNode_toNode (by simp [errorsToFile, LogAppenderDefine.Configurable])
  rw [ofText, toText, hload, Option.bind_some, hread] at h
  exact absurd h (by decide)

end LogDefine

end Muhui.Log
