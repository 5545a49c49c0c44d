/-
  The text of the loggers and of their configuration (`log.cc`).

  `LoggerManager::toYamlString` writes the loggers as the variable of the loggers reads them, so a
  process that starts with the text has the loggers that were written, but for the levels of their
  appenders (`withoutLevels`).  The text of the variable itself is that of a set, whose elements
  stand in it as scalars, and is not read back at all.

  `emit` and `load` are those of yaml-cpp, and `isError` says which patterns are rejected; that
`LogFormatter` has, `rejects`, takes the default pattern.
-/
import Muhui.Config.LexcalCast
import Muhui.Log.Define
import Muhui.Log.Pattern

namespace Muhui.Log

open Muhui.Config (Node Members)
open Muhui.Config.LexcalCast

/-! ### `std::set<LogDefine>` -/

namespace LogDefines

/-- `insert`; an element of the name stays as it is. -/
def insertList (d : LogDefine) : List LogDefine → List LogDefine
  | [] => [d]
  | e :: rest =>
    if d.name < e.name then d :: e :: rest
    else if e.name < d.name then e :: insertList d rest
    else e :: rest

theorem mem_insertList {d e : LogDefine} {ds : List LogDefine} (h : e ∈ insertList d ds) :
    e = d ∨ e ∈ ds := by
  induction ds with
  | nil => exact .inl (List.mem_singleton.mp h)
  | cons f rest ih =>
    rw [insertList] at h
    split_ifs at h
    · exact List.mem_cons.mp h
    · rcases List.mem_cons.mp h with rfl | h
      · exact .inr (List.mem_cons_self ..)
      · exact (ih h).imp_right (List.mem_cons_of_mem f)
    · exact .inr h

theorem sorted_insertList {d : LogDefine} {ds : List LogDefine}
    (h : ds.Pairwise fun d d' => d.name < d'.name) :
    (insertList d ds).Pairwise fun d d' => d.name < d'.name := by
  induction ds with
  | nil => exact List.pairwise_singleton _ _
  | cons e rest ih =>
    rw [insertList]
    have hrest := List.pairwise_cons.mp h
    split_ifs with hlt hgt
    · refine List.pairwise_cons.mpr ⟨fun f hf => ?_, h⟩
      rcases List.mem_cons.mp hf with rfl | hf
      · exact hlt
      · exact hlt.trans (hrest.1 f hf)
    · refine List.pairwise_cons.mpr ⟨fun f hf => ?_, ih hrest.2⟩
      rcases mem_insertList hf with rfl | hf
      · exact hgt
      · exact hrest.1 f hf
    · exact h

def insert (s : LogDefines) (d : LogDefine) : LogDefines :=
  ⟨insertList d s.defines, sorted_insertList s.sorted⟩

def ofList (ds : List LogDefine) : LogDefines := ds.foldl insert empty

/-- A define of a later name goes to the end. -/
theorem insertList_append {d : LogDefine} {ds : List LogDefine} (h : ∀ e ∈ ds, e.name < d.name) :
    insertList d ds = ds ++ [d] := by
  induction ds with
  | nil => rfl
  | cons e rest ih =>
    rw [List.forall_mem_cons] at h
    rw [insertList, if_neg h.1.not_gt, if_pos h.1, ih h.2]
    rfl

theorem ofList_defines (s : LogDefines) : ofList s.defines = s := by
  obtain ⟨ds, hsorted⟩ := s
  have hdefines : (ofList ds).defines = ds := by
    induction ds using List.reverseRecOn with
    | nil => rfl
    | append_singleton ds d ih =>
      rw [List.pairwise_append] at hsorted
      rw [ofList, List.foldl_append]
      show insertList d (ofList ds).defines = _
      rw [ih hsorted.1]
      exact insertList_append fun e he => hsorted.2.2 e he d (List.mem_singleton_self d)
  cases h : ofList ds with
  | mk defines sorted =>
    rw [h] at hdefines
    cases hdefines
    rfl

variable (emit : Node → List Char) (load : List Char → Option (Option Node))

/-- `LexcalCast<std::string, std::set<LogDefine>>` -/
def ofText (v : List Char) : Option LogDefines :=
  (vectorOfText emit load (LogDefine.ofText load) v).map ofList

/-- `LexcalCast<std::set<LogDefine>, std::string>` -/
def toText (s : LogDefines) : Option (List Char) :=
  textOfList emit (fun d => some (d.toText emit)) s.defines

end LogDefines

section Variable

variable {emit : Node → List Char} {load : List Char → Option (Option Node)} {s : LogDefines}

/-- A define is not read from a scalar, which has no keys. -/
theorem LogDefine.ofText_scalar {t : List Char} (h : Reads emit load (.scalar t)) :
    LogDefine.ofText load (emit (.scalar t)) = none := by
  rw [LogDefine.ofText, h]
  rfl

/-- The text of the variable of the loggers is not read back, unless there are none. -/
theorem LogDefines.readBack_iff
    (hset : Reads emit load
      (.sequence (s.defines.map fun d => .scalar (d.toText emit))))
    (hscalar : ∀ d ∈ s.defines, Reads emit load (.scalar (d.toText emit))) :
    (s.toText emit).bind (LogDefines.ofText emit load) = some s ↔ s = .empty := by
  have htext : s.toText emit =
      some (emit (.sequence (s.defines.map fun d => .scalar (d.toText emit)))) :=
    textOfList_of_forall fun _ _ => rfl
  rw [htext, Option.bind_some]
  obtain ⟨ds, hsorted⟩ := s
  cases ds with
  | nil =>
    refine iff_of_true ?_ rfl
    have hread : vectorOfText emit load (LogDefine.ofText load) _ = some [] :=
      vectorOfText_sequence (g := id) hset (by simp)
    exact congrArg (Option.map LogDefines.ofList) hread
  | cons d rest =>
    -- the first define is not read
    have hread : vectorOfText emit load (LogDefine.ofText load)
        (emit (.sequence ((d :: rest).map fun d => .scalar (d.toText emit)))) = none := by
      rw [vectorOfText, hset, Option.bind_some]
      show List.mapM _ (some (Node.scalar (d.toText emit)) :: _) = _
      rw [List.mapM_cons]
      show (LogDefine.ofText load (emit (.scalar (d.toText emit)))).bind _ = none
      rw [LogDefine.ofText_scalar (hscalar d (List.mem_cons_self ..)), Option.bind_none]
    rw [LogDefines.ofText, hread, Option.map_none]
    refine iff_of_false (Option.some_ne_none _).symm fun h => ?_
    exact absurd (congrArg LogDefines.defines h) (List.cons_ne_nil _ _)

/-- The text of one define of a name only. -/
theorem LogDefines.readBack_iff_name :
    let text := "name: system".toList
    let quoted := "\"name: system\"".toList
    let emit : Node → List Char
      | .scalar _ => quoted
      | .sequence _ => "- ".toList ++ quoted
      | .map _ => text
    let load (v : List Char) : Option (Option Node) :=
      if v = quoted then some (some (.scalar text))
      else if v = "- ".toList ++ quoted then some (some (.sequence [.scalar text]))
      else none
    let d : LogDefine := { name := "system", level := .unkonw, formatter := "", appenders := [] }
    let s : LogDefines := ⟨[d], List.pairwise_singleton _ _⟩
    ¬ (s.toText emit).bind (LogDefines.ofText emit load) = some s := by
  intro text quoted emit load d s
  have hset : Reads emit load (.sequence (s.defines.map fun d => .scalar (d.toText emit))) := rfl
  have hscalar : ∀ e ∈ s.defines, Reads emit load (.scalar (e.toText emit)) := by
    intro e he
    rw [List.mem_singleton.mp he]
    rfl
  rw [LogDefines.readBack_iff hset hscalar]
  intro h
  exact absurd (congrArg LogDefines.defines h) (List.cons_ne_nil _ _)

end Variable

/-! ### The text of the loggers -/

section Dump

variable (emit : Node → List Char) (load : List Char → Option (Option Node))

namespace Appender

/-- The node of `FileLogAppender::toYamlString` and `StdoutLogAppender::toYamlString` -/
def toMembers (a : Appender) : Members :=
  let node := Members.nil
  let node :=
    if a.type = 1 then
      (node.assign "type".toList (.scalar "FileLogAppender".toList)).assign "file".toList
        (.scalar a.file.toList)
    else node.assign "type".toList (.scalar "StdoutLogAppender".toList)
  let node :=
    if a.level = .unkonw then node else node.assign "level".toList (.scalar a.level.toString)
  if a.hasFormatter && a.formatter.isSome then
    node.assign "formatter".toList (.scalar (a.formatter.getD "").toList)
  else node

/-- `toYamlString` -/
def toYamlString (a : Appender) : List Char := emit (.map a.toMembers)

/-- The appender as one that was configured without a level. -/
def withoutLevel (a : Appender) : Appender := { a with level := .unkonw }

/-- The define of an appender. -/
def toDefine (a : Appender) : LogAppenderDefine :=
  { type := a.type
    level := a.level
    formatter := if a.hasFormatter then a.formatter.getD "" else ""
    file := a.file }

end Appender

namespace Logger

/-- The node of `Logger::toYamlString` before the loop. -/
def toFields (name : String) (l : Logger) : Members :=
  let node := Members.nil.assign "name".toList (.scalar name.toList)
  let node :=
    if l.level = .unkonw then node else node.assign "level".toList (.scalar l.level.toString)
  node.assign "formatter".toList (.scalar l.formatter.toList)

/-- `Logger::toYamlString` -/
def toYamlString (name : String) (l : Logger) : Option (List Char) :=
  (l.appenders.mapM fun i => load (i.toYamlString emit)).map fun nodes =>
    emit (.map (nodes.foldl (fun node na => node.pushBack "appenders".toList (na.getD .null))
      (l.toFields name)))

/-- The logger with the levels of the appenders left out. -/
def withoutLevels (l : Logger) : Logger :=
  { l with appenders := l.appenders.map Appender.withoutLevel }

/-- The define of a logger. -/
def toDefine (name : String) (l : Logger) : LogDefine :=
  { name
    level := l.level
    formatter := l.formatter
    appenders := l.appenders.map Appender.toDefine }

end Logger

/-- `LoggerManager::toYamlString`; a node that nothing is pushed to is null. -/
def toYamlString (m_loggers : List (String × Logger)) : Option (List Char) :=
  (m_loggers.mapM fun i => (Logger.toYamlString emit load i.1 i.2).bind load).map fun nodes =>
    emit (if nodes.isEmpty then .null else .sequence (nodes.map fun node => node.getD .null))

end Dump

/-! ### The loggers that there are -/

/-- `isError` of a `LogFormatter` with the pattern. -/
def rejects (pattern : String) : Bool := (LogFormatter.init pattern.toList).2

theorem rejects_defaultPattern : rejects defaultPattern = false := by decide +kernel

variable (isError : String → Bool)

/-- What every logger is: it was built of a define, or is new. -/
structure Sound (l : Logger) : Prop where
  formatter : Usable isError l.formatter
  type : ∀ a ∈ l.appenders, a.type = 1 ∨ a.type = 2 ∧ a.file = ""
  own : ∀ a ∈ l.appenders, a.hasFormatter = true →
    ∃ p, a.formatter = some p ∧ Usable isError p
  shared : ∀ a ∈ l.appenders, a.hasFormatter = false → a.formatter = some l.formatter

variable {isError} {l : Logger} {d : LogDefine} {p : String} {vs : List LogDefines}

/-- The appender that is made of a define for a logger with the pattern. -/
def builtAppender (isError : String → Bool) (p : String) (a : LogAppenderDefine) : Appender :=
  { type := a.type
    file := if a.type = 1 then a.file else ""
    level := a.level
    formatter := some (if Usable isError a.formatter then a.formatter else p)
    hasFormatter := Usable isError a.formatter }

theorem built_appenders (d : LogDefine) (p : String) :
    (built isError d p).appenders = d.appenders.filterMap fun a =>
      if a.type = 1 ∨ a.type = 2 then some (builtAppender isError p a) else none := by
  show (d.appenders.filterMap (makeAppender isError)).map _ = _
  rw [List.map_filterMap]
  apply List.filterMap_congr
  intro a _
  unfold makeAppender builtAppender
  by_cases htype : a.type = 1 ∨ a.type = 2
  · rw [if_pos htype, if_pos htype]
    cases hempty : a.formatter.isEmpty <;> cases herror : isError a.formatter <;>
      simp [Usable, hempty, herror]
  · rw [if_neg htype, if_neg htype]
    rfl

theorem sound_built (hp : Usable isError p) : Sound isError (built isError d p) := by
  have happenders : ∀ a ∈ (built isError d p).appenders, ∃ b : LogAppenderDefine,
      (b.type = 1 ∨ b.type = 2) ∧ builtAppender isError p b = a := by
    intro a ha
    rw [built_appenders] at ha
    obtain ⟨b, -, hb⟩ := List.mem_filterMap.mp ha
    split_ifs at hb with htype
    exact ⟨b, htype, Option.some_inj.mp hb⟩
  constructor
  · exact hp
  · intro a ha
    obtain ⟨b, htype, rfl⟩ := happenders a ha
    refine htype.imp_right fun h => ⟨h, ?_⟩
    exact if_neg fun hone : b.type = 1 => absurd (hone.symm.trans h) (by decide)
  · intro a ha howns
    obtain ⟨b, -, rfl⟩ := happenders a ha
    have husable := of_decide_eq_true howns
    exact ⟨b.formatter, congrArg some (if_pos husable), husable⟩
  · intro a ha howns
    obtain ⟨b, -, rfl⟩ := happenders a ha
    exact congrArg some (if_neg (of_decide_eq_false howns))

/-- The default pattern is one that a formatter takes. -/
theorem sound_newLogger (herror : isError defaultPattern = false) (name : String) :
    Sound isError (newLogger name) := by
  have hdefault : Usable isError defaultPattern := ⟨by decide, herror⟩
  unfold newLogger
  constructor
  · exact hdefault
  · intro a ha
    split_ifs at ha with hroot
    · rw [List.mem_singleton.mp ha]
      exact .inr ⟨rfl, rfl⟩
    · exact absurd ha List.not_mem_nil
  · intro a ha howns
    split_ifs at ha with hroot
    · rw [List.mem_singleton.mp ha] at howns
      exact absurd howns Bool.false_ne_true
    · exact absurd ha List.not_mem_nil
  · intro a ha _
    split_ifs at ha with hroot
    · rw [List.mem_singleton.mp ha]
    · exact absurd ha List.not_mem_nil

theorem Sound.disable (h : Sound isError l) : Sound isError (disable l) := by
  refine ⟨h.formatter, ?_, ?_, ?_⟩ <;> exact fun a ha => absurd ha List.not_mem_nil

theorem Sound.configure (h : Sound isError l) (d : LogDefine) :
    Sound isError (configure isError d l) := by
  rw [configure_eq]
  apply sound_built
  split_ifs with husable
  · exact husable
  · exact h.formatter

/-- Whatever the values of the variable have been, the loggers are sound. -/
theorem sound_reload (herror : isError defaultPattern = false) (vs : List LogDefines)
    (name : String) : Sound isError ((reload isError vs).loggers name) := by
  induction vs using List.reverseRecOn with
  | nil => exact sound_newLogger herror name
  | append_singleton vs v ih =>
    rw [reload, List.foldl_append]
    show Sound isError (((reload isError vs).setValue isError v).loggers name)
    unfold Config.setValue
    split_ifs
    · exact ih
    · show Sound isError (onChange isError _ v _ name)
      rw [onChange_apply]
      cases v.find name with
      | none =>
        dsimp only
        split_ifs
        · exact ih.disable
        · exact ih
      | some d =>
        dsimp only
        split_ifs
        · exact ih
        · exact ih.configure d

/-! ### What is written -/

section Written

variable {emit : Node → List Char} {load : List Char → Option (Option Node)} {name : String}

/-- The pattern is written as that of the define, which is left out if it is empty. -/
theorem Sound.formatter_eq (h : Sound isError l) {a : Appender} (ha : a ∈ l.appenders)
    (assign : String → Members) (node : Members) :
    (if a.hasFormatter && a.formatter.isSome then assign (a.formatter.getD "") else node) =
      if a.toDefine.formatter.isEmpty then node else assign a.toDefine.formatter := by
  unfold Appender.toDefine
  cases howns : a.hasFormatter with
  | true =>
    obtain ⟨p, hp, husable⟩ := h.own a ha howns
    simp [hp, husable.1]
  | false => simp

/-- The appenders of a logger are written as their defines are. -/
theorem Sound.toMembers_eq (h : Sound isError l) {a : Appender} (ha : a ∈ l.appenders) :
    a.toMembers = a.toDefine.toMembers := by
  have htype : ∀ file stdout : Members, (if a.type = 1 then file else stdout) =
      if a.type = 1 then file else if a.type = 2 then stdout else .nil := by
    intro file stdout
    split_ifs with hone htwo
    · rfl
    · rfl
    · exact absurd ((h.type a ha).resolve_left hone).1 htwo
  unfold Appender.toMembers LogAppenderDefine.toMembers
  dsimp only
  rw [h.formatter_eq ha fun p => Members.assign _ (.scalar p.toList) _, htype]
  rfl

theorem Sound.toFields_eq (h : Sound isError l) (name : String) :
    l.toFields name = (l.toDefine name).toFields := by
  show _ = if l.formatter.isEmpty then _ else _
  rw [h.formatter.1]
  rfl

theorem Sound.configurable (h : Sound isError l) {a : Appender} (ha : a ∈ l.appenders) :
    a.toDefine.Configurable :=
  h.type a ha

/-- A logger is written as its define is. -/
theorem Sound.toYamlString_eq (h : Sound isError l)
    (hreads : ∀ a ∈ l.appenders, Reads emit load a.toDefine.toNode) :
    l.toYamlString emit load name = some ((l.toDefine name).toText emit) := by
  have hload : ∀ a ∈ l.appenders, load (a.toYamlString emit) = some (some a.toDefine.toNode) := by
    intro a ha
    rw [Appender.toYamlString, h.toMembers_eq ha,
      ← LogAppenderDefine.toNode_eq (h.configurable ha)]
    exact hreads a ha
  rw [Logger.toYamlString, mapM_of_forall hload, Option.map_some, h.toFields_eq, List.foldl_map]
  show some (emit _) = some (emit (.map ((l.appenders.map Appender.toDefine).map _ |>.foldl _ _)))
  rw [List.map_map, List.foldl_map]
  rfl

theorem Sound.ofText_eq (h : Sound isError l)
    (hreads : Reads emit load (l.toDefine name).toNode) :
    LogDefine.ofText load (emit (l.toDefine name).toNode) =
      some (l.withoutLevels.toDefine name) := by
  have happenders : ∀ a ∈ (l.toDefine name).appenders, a.Configurable := by
    intro b hb
    obtain ⟨a, ha, rfl⟩ := List.mem_map.mp hb
    exact h.configurable ha
  rw [LogDefine.ofText, hreads, Option.bind_some, LogDefine.ofNode_toNode happenders]
  show some (LogDefine.mk _ _ _ ((l.appenders.map Appender.toDefine).map _)) =
    some (LogDefine.mk _ _ _ ((l.appenders.map Appender.withoutLevel).map Appender.toDefine))
  rw [List.map_map, List.map_map]
  rfl

theorem Sound.builtAppender_eq (h : Sound isError l) {a : Appender} (ha : a ∈ l.appenders) :
    (if a.withoutLevel.toDefine.type = 1 ∨ a.withoutLevel.toDefine.type = 2 then
      some (builtAppender isError l.formatter a.withoutLevel.toDefine) else none) =
        some a.withoutLevel := by
  have htype := h.type a ha
  have hkind : a.withoutLevel.toDefine.type = 1 ∨ a.withoutLevel.toDefine.type = 2 :=
    htype.imp_right And.left
  rw [if_pos hkind]
  have hfile : (if a.type = 1 then a.file else "") = a.file := by
    split_ifs with hone
    · rfl
    · exact (htype.resolve_left hone).2.symm
  have hformatter : some (if Usable isError a.toDefine.formatter then a.toDefine.formatter
      else l.formatter) = a.formatter ∧ decide (Usable isError a.toDefine.formatter) =
        a.hasFormatter := by
    unfold Appender.toDefine
    cases howns : a.hasFormatter with
    | true =>
      obtain ⟨p, hp, husable⟩ := h.own a ha howns
      simp [hp, husable]
    | false =>
      have hempty : ¬ Usable isError "" := fun husable => absurd husable.1 (by decide)
      simp [h.shared a ha howns, hempty]
  calc
    some (builtAppender isError l.formatter a.withoutLevel.toDefine) =
        some (Appender.mk a.type (if a.type = 1 then a.file else "") .unkonw
          (some (if Usable isError a.toDefine.formatter then a.toDefine.formatter
            else l.formatter)) (decide (Usable isError a.toDefine.formatter))) := rfl
    _ = some a.withoutLevel := by rw [hfile, hformatter.1, hformatter.2]; rfl

/-- A logger is built anew of its define. -/
theorem Sound.built_toDefine (h : Sound isError l) (name : String) :
    built isError (l.withoutLevels.toDefine name) l.formatter = l.withoutLevels := by
  have happenders : (built isError (l.withoutLevels.toDefine name) l.formatter).appenders =
      l.withoutLevels.appenders := by
    rw [built_appenders]
    show ((l.appenders.map Appender.withoutLevel).map Appender.toDefine).filterMap _ = _
    rw [List.map_map, List.filterMap_map]
    refine Eq.trans ?_ (congrFun List.filterMap_eq_map' l.appenders)
    apply List.filterMap_congr
    intro a ha
    exact h.builtAppender_eq ha
  exact congrArg (Logger.mk l.level l.formatter) happenders

/-! ### Dump and reload -/

/-- The loggers of the manager, in the order of their names. -/
def listed (names : List String) (loggers : String → Logger) : List (String × Logger) :=
  names.map fun name => (name, loggers name)

/-- A name that no value has had. -/
theorem reload_of_find_none (h : ∀ v ∈ vs, v.find name = none) :
    (reload isError vs).loggers name = newLogger name ∧
      (reload isError vs).value.find name = none := by
  induction vs using List.reverseRecOn with
  | nil => exact ⟨rfl, rfl⟩
  | append_singleton vs v ih =>
    obtain ⟨hvs, hv⟩ := List.forall_mem_append.mp h
    replace hv := hv v (List.mem_singleton_self v)
    obtain ⟨hlogger, hvalue⟩ := ih hvs
    refine ⟨?_, by rw [value_reload]; exact hv⟩
    rw [reload, List.foldl_append]
    show ((reload isError vs).setValue isError v).loggers name = _
    unfold Config.setValue
    split_ifs
    · exact hlogger
    · show onChange isError _ v _ name = _
      rw [onChange_apply, hv, hvalue]
      exact hlogger

/-- A define with a pattern that can be used makes its logger. -/
theorem reload_singleton {v : LogDefines} (hd : v.find name = some d)
    (husable : Usable isError d.formatter) :
    (reload isError [v]).loggers name = built isError d d.formatter := by
  have hvalue : (reload isError [v]).value = v := value_reload [] v
  have hcurrent := (configured_reload isError name [v]).current d (by rw [hvalue]; exact hd)
  rw [hcurrent.1, hcurrent.2 husable]

theorem withoutLevels_newLogger (hname : name ≠ "root") :
    (newLogger name).withoutLevels = newLogger name := by
  unfold newLogger
  rw [if_neg hname]
  rfl

/-- Read as the value of the variable by a process that starts, the text of the loggers makes them
anew, but for the levels of the appenders. -/
theorem restored {names : List String} (hsorted : names.Pairwise (· < ·))
    (hnames : ∀ name, name ∉ names → name ≠ "root" ∧ ∀ v ∈ vs, v.find name = none)
    (hreads : ∀ name ∈ names,
      Reads emit load (((reload rejects vs).loggers name).toDefine name).toNode ∧
        ∀ a ∈ ((reload rejects vs).loggers name).appenders, Reads emit load a.toDefine.toNode)
    (hlist : Reads emit load (.sequence (names.map fun name =>
      (((reload rejects vs).loggers name).toDefine name).toNode))) :
    ∃ v, (toYamlString emit load (listed names (reload rejects vs).loggers)).bind
        (LogDefines.ofText emit load) = some v ∧
      ∀ name, (reload rejects [v]).loggers name =
        ((reload rejects vs).loggers name).withoutLevels := by
  have hsound := sound_reload rejects_defaultPattern vs
  generalize hloggers : (reload rejects vs).loggers = loggers at *
  have hroot : names ≠ [] := by
    rintro rfl
    exact (hnames "root" List.not_mem_nil).1 rfl
  have htext : toYamlString emit load (listed names loggers) =
      some (emit (.sequence (names.map fun name => ((loggers name).toDefine name).toNode))) := by
    have hload : ∀ name ∈ names, ((loggers name).toYamlString emit load name).bind load =
        some (some ((loggers name).toDefine name).toNode) := by
      intro name hname
      rw [(hsound name).toYamlString_eq (hreads name hname).2, Option.bind_some]
      exact (hreads name hname).1
    have hnodes : (listed names loggers).mapM (fun i =>
        (Logger.toYamlString emit load i.1 i.2).bind load) =
          some (names.map fun name => some ((loggers name).toDefine name).toNode) := by
      rw [listed, List.mapM_map]
      exact mapM_of_forall hload
    rw [toYamlString, hnodes, Option.map_some, if_neg (by simpa using hroot), List.map_map]
    rfl
  have hread : vectorOfText emit load (LogDefine.ofText load)
      (emit (.sequence (names.map fun name => ((loggers name).toDefine name).toNode))) =
        some (names.map fun name => (loggers name).withoutLevels.toDefine name) :=
    vectorOfText_sequence hlist fun name hname =>
      (hsound name).ofText_eq (hreads name hname).1
  have hpairwise : (names.map fun name => (loggers name).withoutLevels.toDefine name).Pairwise
      fun d d' => d.name < d'.name := by
    rw [List.pairwise_map]
    exact hsorted
  let v : LogDefines := ⟨_, hpairwise⟩
  refine ⟨v, ?_, fun name => ?_⟩
  · rw [htext, Option.bind_some, LogDefines.ofText, hread, Option.map_some]
    exact congrArg some (LogDefines.ofList_defines v)
  · by_cases hname : name ∈ names
    · have hfind : v.find name = some ((loggers name).withoutLevels.toDefine name) :=
        LogDefines.find_of_mem (v := v) (List.mem_map_of_mem hname)
      rw [reload_singleton hfind (hsound name).formatter]
      exact (hsound name).built_toDefine name
    -- of a logger that there is not nothing is written
    · obtain ⟨hother, hvs⟩ := hnames name hname
      have hfind : v.find name = none := by
        refine List.find?_eq_none.mpr fun d hd heq => ?_
        obtain ⟨other, hmem, rfl⟩ := List.mem_map.mp hd
        exact hname (of_decide_eq_true heq ▸ hmem)
      have hnew : loggers name = newLogger name := by
        rw [← hloggers]
        exact (reload_of_find_none hvs).1
      rw [hnew, withoutLevels_newLogger hother]
      exact (reload_of_find_none (List.forall_mem_singleton.mpr hfind)).1

/-- A logger that two values have configured, with a pattern that is kept, an appender with its own
pattern, and a level of that appender, which is lost. -/
theorem restored_system :
    let file : LogAppenderDefine := ⟨1, .error, "%m%n", "system.log"⟩
    let stdout : LogAppenderDefine := ⟨2, .unkonw, "", ""⟩
    let vs : List LogDefines :=
      [⟨[⟨"system", .info, "%p %m%n", [stdout]⟩], List.pairwise_singleton _ _⟩,
        ⟨[⟨"system", .warn, "", [file, stdout]⟩], List.pairwise_singleton _ _⟩]
    let loggers := (reload rejects vs).loggers
    let fileText := "type: FileLogAppender\nfile: system.log\nlevel: ERROR\nformatter: \"%m%n\""
    let stdoutText := "type: StdoutLogAppender"
    let debugText := "type: StdoutLogAppender\nlevel: DEBUG"
    let rootText := "name: root\nlevel: DEBUG\nformatter: \"" ++ defaultPattern ++
      "\"\nappenders:\n  - type: StdoutLogAppender\n    level: DEBUG"
    let systemText := "name: system\nlevel: WARN\nformatter: \"%p %m%n\"\nappenders:\n" ++
      "  - type: FileLogAppender\n    file: system.log\n    level: ERROR\n" ++
      "    formatter: \"%m%n\"\n  - type: StdoutLogAppender"
    let allText := "- name: root\n  level: DEBUG\n  formatter: \"" ++ defaultPattern ++
      "\"\n  appenders:\n    - type: StdoutLogAppender\n      level: DEBUG\n" ++
      "- name: system\n  level: WARN\n  formatter: \"%p %m%n\"\n  appenders:\n" ++
      "    - type: FileLogAppender\n      file: system.log\n      level: ERROR\n" ++
      "      formatter: \"%m%n\"\n    - type: StdoutLogAppender"
    let emit : Node → List Char
      | .scalar t => t
      | .sequence _ => allText.toList
      | .map members =>
        if (members.find "appenders".toList).isSome then
          if (members.find "name".toList).bind Node.asString = some "root".toList then
            rootText.toList
          else systemText.toList
        else if (members.find "file".toList).isSome then fileText.toList
        else if (members.find "level".toList).isSome then debugText.toList
        else stdoutText.toList
    let root := (loggers "root").toDefine "root"
    let system := (loggers "system").toDefine "system"
    let load (v : List Char) : Option (Option Node) :=
      if v = fileText.toList then some (some file.toNode)
      else if v = stdoutText.toList then some (some stdout.toNode)
      else if v = debugText.toList then some (some (LogAppenderDefine.mk 2 .debug "" "").toNode)
      else if v = rootText.toList then some (some root.toNode)
      else if v = systemText.toList then some (some system.toNode)
      else if v = allText.toList then some (some (.sequence [root.toNode, system.toNode]))
      else none
    (loggers "system").appenders.map (·.level) = [.error, .unkonw] ∧
      ((toYamlString emit load (listed ["root", "system"] loggers)).bind
        (LogDefines.ofText emit load)).map (fun v => (reload rejects [v]).loggers "system") =
          some (loggers "system").withoutLevels := by
  intro file stdout vs loggers fileText stdoutText debugText rootText systemText allText emit root
    system load
  have hdistinct : [fileText.toList, stdoutText.toList, debugText.toList, rootText.toList,
      systemText.toList, allText.toList].Pairwise (· ≠ ·) := by
    decide +kernel
  simp only [List.pairwise_cons, List.forall_mem_cons] at hdistinct
  obtain ⟨⟨hfs, hfd, hfr, hfy, hfa, -⟩, ⟨hsd, hsr, hsy, hsa, -⟩, ⟨hdr, hdy, hda, -⟩,
    ⟨hry, hra, -⟩, ⟨hya, -⟩, -⟩ := hdistinct
  have hroot : loggers "root" = newLogger "root" := by decide +kernel
  have hsystem : loggers "system" =
      { level := .warn
        formatter := "%p %m%n"
        appenders := [⟨1, "system.log", .error, some "%m%n", true⟩,
          ⟨2, "", .unkonw, some "%p %m%n", false⟩] } := by
    decide +kernel
  -- the texts are those that yaml-cpp prints for these nodes
  have hfile : Reads emit load file.toNode := by
    have hemit : emit file.toNode = fileText.toList := by decide +kernel
    rw [Reads, hemit]
    exact if_pos rfl
  have hstdout : Reads emit load stdout.toNode := by
    have hemit : emit stdout.toNode = stdoutText.toList := by decide +kernel
    rw [Reads, hemit]
    exact (if_neg hfs.symm).trans (if_pos rfl)
  have hdebug : Reads emit load (LogAppenderDefine.mk 2 .debug "" "").toNode := by
    have hemit : emit (LogAppenderDefine.mk 2 .debug "" "").toNode = debugText.toList := by
      decide +kernel
    rw [Reads, hemit]
    exact (if_neg hfd.symm).trans ((if_neg hsd.symm).trans (if_pos rfl))
  have hreadsRoot : Reads emit load root.toNode := by
    have hemit : emit root.toNode = rootText.toList := by decide +kernel
    rw [Reads, hemit]
    exact (if_neg hfr.symm).trans <| (if_neg hsr.symm).trans <| (if_neg hdr.symm).trans <|
      if_pos rfl
  have hreadsSystem : Reads emit load system.toNode := by
    have hemit : emit system.toNode = systemText.toList := by decide +kernel
    rw [Reads, hemit]
    exact (if_neg hfy.symm).trans <| (if_neg hsy.symm).trans <| (if_neg hdy.symm).trans <|
      (if_neg hry.symm).trans <| if_pos rfl
  have hlist : Reads emit load (.sequence [root.toNode, system.toNode]) :=
    (if_neg hfa.symm).trans <| (if_neg hsa.symm).trans <| (if_neg hda.symm).trans <|
      (if_neg hra.symm).trans <| (if_neg hya.symm).trans <| if_pos rfl
  have hnames : ∀ name, name ∉ ["root", "system"] →
      name ≠ "root" ∧ ∀ v ∈ vs, v.find name = none := by
    intro name hname
    rw [List.mem_cons, List.mem_singleton, not_or] at hname
    refine ⟨hname.1, ?_⟩
    simp [vs, LogDefines.find, Ne.symm hname.2]
  have hreads : ∀ name ∈ ["root", "system"],
      Reads emit load ((loggers name).toDefine name).toNode ∧
        ∀ a ∈ (loggers name).appenders, Reads emit load a.toDefine.toNode := by
    rw [List.forall_mem_cons, List.forall_mem_singleton]
    refine ⟨⟨hreadsRoot, ?_⟩, hreadsSystem, ?_⟩
    · rw [hroot]
      exact List.forall_mem_singleton.mpr hdebug
    · rw [hsystem]
      exact List.forall_mem_cons.mpr ⟨hfile, List.forall_mem_singleton.mpr hstdout⟩
  obtain ⟨v, hv, hloggers⟩ := restored (by decide) hnames hreads hlist
  refine ⟨by rw [hsystem]; rfl, ?_⟩
  rw [hv, Option.map_some, hloggers "system"]

end Written

end Muhui.Log
