/-
  The listener of `LogIniter` (`log.cc`), which reconfigures the loggers when the set of the
  `LogDefine`s changes.

  It goes over the new defines and leaves out those that are as before, then over the old ones for
  those that are gone.  Level and appenders are set anew each time.  The formatter of a logger is
  set only by a define that has one, and is left as it is when the define goes away, so it is the
  one that some define of the logger has set last (`Configured`).

  `isError` says which patterns a `LogFormatter` rejects.
-/
import Mathlib.Data.List.Induction
import Mathlib.Data.String.Basic
import Mathlib.Logic.Function.Basic

namespace Muhui.Log

/-! ### Loggers -/

/-- `LogLevel::Level` -/
inductive Level
  | unkonw
  | debug
  | info
  | warn
  | error
  | fatal
  deriving DecidableEq

/-- A `LogAppender`; the type is that of its define. The formatter is given by its pattern, and may
be null. -/
structure Appender where
  type : ℕ
  file : String
  level : Level
  formatter : Option String
  hasFormatter : Bool
  deriving DecidableEq

structure Logger where
  level : Level
  formatter : String
  appenders : List Appender
  deriving DecidableEq

/-- The pattern of a new logger. -/
def defaultPattern : String := "%d{%Y-%m-%d %H:%M:%S}%T%t%T%N%T%F%T[%p]%T[%c]%T%f:%l%T%m%n"

/-- A new logger; that of the name `root` comes with an appender. -/
def newLogger (name : String) : Logger :=
  { level := .debug
    formatter := defaultPattern
    appenders :=
      if name = "root" then
        [{ type := 2, file := "", level := .debug, formatter := some defaultPattern,
           hasFormatter := false }]
      else [] }

namespace Logger

/-- `setFormatter(LogFormatter::ptr)` -/
def setFormatter (l : Logger) (val : String) : Logger :=
  { l with
    formatter := val
    appenders := l.appenders.map fun a => if a.hasFormatter then a else
      { a with formatter := some val } }

/-- `setFormatter(const std::string&)`, which ignores a pattern that is rejected. -/
def setPattern (isError : String → Bool) (l : Logger) (val : String) : Logger :=
  if isError val then l else l.setFormatter val

def addAppender (l : Logger) (a : Appender) : Logger :=
  { l with
    appenders := l.appenders ++
      [if a.formatter.isNone then { a with formatter := some l.formatter } else a] }

def clearAppender (l : Logger) : Logger := { l with appenders := [] }

end Logger

/-! ### Defines -/

structure LogAppenderDefine where
  type : ℕ
  level : Level
  formatter : String
  file : String
  deriving DecidableEq

structure LogDefine where
  name : String
  level : Level
  formatter : String
  appenders : List LogAppenderDefine
  deriving DecidableEq

/-- `std::set<LogDefine>`, which is ordered by the names. -/
structure LogDefines where
  defines : List LogDefine
  sorted : defines.Pairwise fun d d' => d.name < d'.name
  deriving DecidableEq

namespace LogDefines

def empty : LogDefines := ⟨[], .nil⟩

/-- The element with the name, if there is one. -/
def find (s : LogDefines) (name : String) : Option LogDefine :=
  s.defines.find? fun d => d.name = name

end LogDefines

variable (isError : String → Bool)

/-- The appender that the listener makes; types other than 1 and 2 make none. -/
def makeAppender (a : LogAppenderDefine) : Option Appender :=
  if a.type = 1 ∨ a.type = 2 then
    let own := !a.formatter.isEmpty && !isError a.formatter
    some
      { type := a.type
        file := if a.type = 1 then a.file else ""
        level := a.level
        formatter := if own then some a.formatter else none
        hasFormatter := own }
  else none

/-- What the listener does to the logger of a define that is new or has changed. -/
def configure (d : LogDefine) (l : Logger) : Logger :=
  let l := { l with level := d.level }
  let l := if d.formatter.isEmpty then l else l.setPattern isError d.formatter
  (d.appenders.filterMap (makeAppender isError)).foldl Logger.addAppender l.clearAppender

/-- What it does to the logger of a define that is gone. -/
def disable (l : Logger) : Logger := { l with level := .unkonw }.clearAppender

/-- The listener. -/
def onChange (old_value new_value : LogDefines) (loggers : String → Logger) : String → Logger :=
  let configured := new_value.defines.foldl (fun loggers d =>
    if old_value.find d.name = some d then loggers
    else Function.update loggers d.name (configure isError d (loggers d.name))) loggers
  old_value.defines.foldl (fun loggers d =>
    if (new_value.find d.name).isSome then loggers
    else Function.update loggers d.name (disable (loggers d.name))) configured

structure Config where
  value : LogDefines
  loggers : String → Logger

/-- No define, and all loggers new. -/
def Config.fresh : Config := { value := .empty, loggers := newLogger }

/-- `g_log_defines->setValue` -/
def Config.setValue (c : Config) (v : LogDefines) : Config :=
  if v = c.value then c else { value := v, loggers := onChange isError c.value v c.loggers }

/-- The configuration after the values one after another. -/
def reload (vs : List LogDefines) : Config := vs.foldl (Config.setValue isError) .fresh

/-! ### What a reload does to one logger -/

/-- A define with this pattern sets the formatter of its logger. -/
def Usable (p : String) : Prop := p.isEmpty = false ∧ isError p = false

instance (p : String) : Decidable (Usable isError p) := inferInstanceAs (Decidable (_ ∧ _))

/-- The logger of a define, with its pattern. -/
def built (d : LogDefine) (p : String) : Logger :=
  { level := d.level
    formatter := p
    appenders := (d.appenders.filterMap (makeAppender isError)).map fun a =>
      if a.formatter.isNone then { a with formatter := some p } else a }

variable {isError} {d : LogDefine} {name : String} {vs : List LogDefines} {v : LogDefines}
  {c : Config}

theorem foldl_addAppender (as : List Appender) (l : Logger) :
    as.foldl Logger.addAppender l =
      { l with
        appenders := l.appenders ++ as.map fun a =>
          if a.formatter.isNone then { a with formatter := some l.formatter } else a } := by
  induction as generalizing l with
  | nil =>
    rw [List.foldl_nil, List.map_nil, List.append_nil]
  | cons a as ih =>
    rw [List.foldl_cons, ih, List.map_cons, Logger.addAppender, List.append_assoc]
    rfl

/-- The old state of the logger is seen in the pattern only. -/
theorem configure_eq (d : LogDefine) (l : Logger) :
    configure isError d l =
      built isError d (if Usable isError d.formatter then d.formatter else l.formatter) := by
  unfold configure
  dsimp only
  rw [foldl_addAppender]
  cases hempty : d.formatter.isEmpty with
  | true =>
    have hnot : ¬ Usable isError d.formatter := fun h => Bool.false_ne_true (h.1.symm.trans hempty)
    rw [if_pos rfl, if_neg hnot]
    rfl
  | false =>
    rw [if_neg Bool.false_ne_true, Logger.setPattern]
    cases herror : isError d.formatter with
    | true =>
      have hnot : ¬ Usable isError d.formatter :=
        fun h => Bool.false_ne_true (h.2.symm.trans herror)
      rw [if_pos rfl, if_neg hnot]
      rfl
    | false =>
      rw [if_neg Bool.false_ne_true, if_pos (show Usable _ _ from ⟨hempty, herror⟩)]
      rfl

theorem LogDefines.name_of_find (h : v.find name = some d) : d.name = name := by
  have hd := List.find?_some h
  exact of_decide_eq_true hd

theorem LogDefines.find_of_mem (h : d ∈ v.defines) : v.find d.name = some d := by
  obtain ⟨ds, hsorted⟩ := v
  replace h : d ∈ ds := h
  show ds.find? (fun d' => d'.name = d.name) = some d
  induction ds with
  | nil => cases h
  | cons d' ds ih =>
    rw [List.pairwise_cons] at hsorted
    rcases List.mem_cons.mp h with rfl | hmem
    · exact List.find?_cons_of_pos (decide_eq_true rfl)
    · have hne : d'.name ≠ d.name := (hsorted.1 d hmem).ne
      rw [List.find?_cons_of_neg (by simpa using hne)]
      exact ih hsorted.2 hmem

/-- A loop over the defines changes the logger of each name once. -/
theorem foldl_update {skip : LogDefine → Prop} [DecidablePred skip]
    {change : LogDefine → Logger → Logger} {ds : List LogDefine}
    (hsorted : ds.Pairwise fun d d' => d.name < d'.name) (loggers : String → Logger)
    (name : String) :
    ds.foldl (fun loggers d => if skip d then loggers
        else Function.update loggers d.name (change d (loggers d.name))) loggers name =
      match ds.find? fun d => d.name = name with
      | none => loggers name
      | some d => if skip d then loggers name else change d (loggers name) := by
  induction ds generalizing loggers with
  | nil => rfl
  | cons d ds ih =>
    rw [List.pairwise_cons] at hsorted
    rw [List.foldl_cons, ih hsorted.2]
    by_cases hname : d.name = name
    -- this define is the only one of the name, so the rest of the loop passes it by
    · have hnone : ds.find? (fun d => d.name = name) = none := by
        rw [List.find?_eq_none]
        intro d' hd' heq
        exact (hsorted.1 d' hd').ne (hname.trans (of_decide_eq_true heq).symm)
      rw [List.find?_cons_of_pos (by simpa using hname), hnone]
      dsimp only
      split_ifs
      · rfl
      · rw [hname, Function.update_self]
    · rw [List.find?_cons_of_neg (by simpa using hname)]
      -- another logger is changed here
      have hsame : (if skip d then loggers
          else Function.update loggers d.name (change d (loggers d.name))) name =
            loggers name := by
        split_ifs
        · rfl
        · exact Function.update_of_ne (Ne.symm hname) ..
      rw [hsame]

/-- The logger of a name depends on the two defines of the name only. -/
theorem onChange_apply (isError : String → Bool) (old_value new_value : LogDefines)
    (loggers : String → Logger) (name : String) :
    onChange isError old_value new_value loggers name =
      match new_value.find name with
      | some d => if old_value.find name = some d then loggers name
          else configure isError d (loggers name)
      | none => if (old_value.find name).isSome then disable (loggers name) else loggers name := by
  have hnew : new_value.defines.foldl (fun loggers d =>
      if old_value.find d.name = some d then loggers
      else Function.update loggers d.name (configure isError d (loggers d.name))) loggers name =
        match new_value.find name with
        | none => loggers name
        | some d => if old_value.find d.name = some d then loggers name
            else configure isError d (loggers name) :=
    foldl_update new_value.sorted loggers name
  -- the second loop finds what the first one has left
  have hold := @foldl_update (fun d => (new_value.find d.name).isSome = true) _
    (fun _ => disable) _ old_value.sorted (new_value.defines.foldl (fun loggers d =>
      if old_value.find d.name = some d then loggers
      else Function.update loggers d.name (configure isError d (loggers d.name))) loggers) name
  refine hold.trans ?_
  rw [hnew]
  cases hfind : old_value.find name with
  | none =>
    unfold LogDefines.find at hfind
    rw [hfind]
    cases hnewfind : new_value.find name with
    | none => rfl
    | some d =>
      dsimp only
      rw [LogDefines.name_of_find hnewfind, show old_value.find name = none from hfind]
  | some d =>
    have hname := LogDefines.name_of_find hfind
    have hfind' : old_value.defines.find? (fun d => d.name = name) = some d := hfind
    rw [hfind']
    dsimp only
    rw [hname]
    cases hnewfind : new_value.find name with
    | none => rfl
    | some d' =>
      dsimp only
      rw [LogDefines.name_of_find hnewfind, hfind]
      rfl

/-! ### Histories -/

variable (isError)

/-- The pattern that the defines of the name have set last. -/
def lastPattern (name : String) (vs : List LogDefines) : String :=
  vs.foldl (fun p v => match v.find name with
    | some d => if Usable isError d.formatter then d.formatter else p
    | none => p) defaultPattern

/-- What the values so far have made of the logger with the name. -/
structure Configured (name : String) (vs : List LogDefines) (c : Config) : Prop where
  pattern : (c.loggers name).formatter = lastPattern isError name vs
  current : ∀ d, c.value.find name = some d →
    c.loggers name = built isError d (lastPattern isError name vs) ∧
      (Usable isError d.formatter → lastPattern isError name vs = d.formatter)

theorem lastPattern_append (name : String) (vs : List LogDefines) (v : LogDefines) :
    lastPattern isError name (vs ++ [v]) = match v.find name with
      | some d => if Usable isError d.formatter then d.formatter else lastPattern isError name vs
      | none => lastPattern isError name vs := by
  rw [lastPattern, List.foldl_append]
  rfl

variable {isError}

theorem configured_fresh (name : String) : Configured isError name [] .fresh :=
  ⟨rfl, nofun⟩

/-- A define that is as before would set the pattern that is there. -/
theorem Configured.lastPattern_append (h : Configured isError name vs c)
    (hd : c.value.find name = some d) (hv : v.find name = some d) :
    lastPattern isError name (vs ++ [v]) = lastPattern isError name vs := by
  rw [Log.lastPattern_append, hv]
  dsimp only
  split_ifs with husable
  · exact ((h.current d hd).2 husable).symm
  · rfl

/-- **Step lemma.** A reload builds the logger anew, or leaves it as it would be built. -/
theorem Configured.setValue (h : Configured isError name vs c) (v : LogDefines) :
    Configured isError name (vs ++ [v]) (c.setValue isError v) := by
  unfold Config.setValue
  split_ifs with heq
  · -- the listener is not called
    have hpattern : lastPattern isError name (vs ++ [v]) = lastPattern isError name vs := by
      cases hfind : v.find name with
      | none =>
        rw [Log.lastPattern_append, hfind]
      | some d => exact h.lastPattern_append (by rw [← heq]; exact hfind) hfind
    exact ⟨hpattern ▸ h.pattern, fun d hd => hpattern ▸ h.current d hd⟩
  · have hlogger := onChange_apply isError c.value v c.loggers name
    cases hfind : v.find name with
    | none =>
      have hpattern : lastPattern isError name (vs ++ [v]) = lastPattern isError name vs := by
        rw [Log.lastPattern_append, hfind]
      rw [hfind] at hlogger
      -- the define is gone, and the pattern stays
      refine ⟨?_, fun d hd => ?_⟩
      · show (onChange isError c.value v c.loggers name).formatter = _
        rw [hlogger, hpattern, ← h.pattern]
        dsimp only
        split_ifs <;> rfl
      · cases hfind.symm.trans hd
    | some d =>
      rw [hfind] at hlogger
      dsimp only at hlogger
      -- the logger is left alone if the define is as before, and built anew if not
      have hbuilt : onChange isError c.value v c.loggers name =
          built isError d (lastPattern isError name (vs ++ [v])) := by
        rw [hlogger]
        split_ifs with hold
        · rw [h.lastPattern_append hold hfind]
          exact (h.current d hold).1
        · rw [configure_eq, Log.lastPattern_append, hfind, h.pattern]
      refine ⟨?_, fun d' hd' => ?_⟩
      · show (onChange isError c.value v c.loggers name).formatter = _
        rw [hbuilt]
        rfl
      · obtain rfl := Option.some.inj (hfind.symm.trans hd')
        refine ⟨hbuilt, fun husable => ?_⟩
        rw [Log.lastPattern_append, hfind]
        exact if_pos husable

theorem configured_reload (isError : String → Bool) (name : String) (vs : List LogDefines) :
    Configured isError name vs (reload isError vs) := by
  induction vs using List.reverseRecOn with
  | nil => exact configured_fresh name
  | append_singleton vs v ih =>
    rw [reload, List.foldl_append]
    exact ih.setValue v

theorem value_reload (vs : List LogDefines) (v : LogDefines) :
    (reload isError (vs ++ [v])).value = v := by
  rw [reload, List.foldl_append]
  show (Config.setValue isError _ v).value = v
  unfold Config.setValue
  split_ifs with heq
  · exact heq.symm
  · rfl

/-- The loggers of the last value are as if there had been no other exactly when each of its defines
sets a pattern, or those before it have left the default one. -/
theorem reload_eq_iff (isError : String → Bool) (vs : List LogDefines) (v : LogDefines) :
    (∀ d ∈ v.defines, (reload isError (vs ++ [v])).loggers d.name =
        (reload isError [v]).loggers d.name) ↔
      ∀ d ∈ v.defines,
        Usable isError d.formatter ∨ lastPattern isError d.name vs = defaultPattern := by
  refine forall₂_congr fun d hd => ?_
  have hfind := LogDefines.find_of_mem hd
  have hall := ((configured_reload isError d.name (vs ++ [v])).current d
    (by rw [value_reload]; exact hfind)).1
  have halone := ((configured_reload isError d.name [v]).current d
    (by rw [show (reload isError [v]).value = v from value_reload [] v]; exact hfind)).1
  have hpattern : lastPattern isError d.name (vs ++ [v]) =
      if Usable isError d.formatter then d.formatter else lastPattern isError d.name vs := by
    rw [lastPattern_append, hfind]
  have hpattern' : lastPattern isError d.name [v] =
      if Usable isError d.formatter then d.formatter else defaultPattern := by
    rw [← List.nil_append [v], lastPattern_append, hfind]
    rfl
  -- the two loggers are built from one define, so only their patterns can differ
  rw [hall, halone, hpattern, hpattern']
  by_cases husable : Usable isError d.formatter
  · rw [if_pos husable, if_pos husable]
    exact iff_of_true rfl (.inl husable)
  · rw [if_neg husable, if_neg husable]
    constructor
    · intro heq
      exact .inr (congrArg Logger.formatter heq)
    · intro hor
      rw [hor.resolve_left husable]

/-- A define without a formatter takes over the formatter of the one before it. -/
theorem not_reload_eq_formatter :
    let system : LogDefine := { name := "system", level := .info, formatter := "", appenders := [] }
    let v : LogDefines := ⟨[{ system with formatter := "%m%n" }], List.pairwise_singleton _ _⟩
    let v' : LogDefines := ⟨[system], List.pairwise_singleton _ _⟩
    ((reload (fun _ => false) [v, v']).loggers "system").formatter = "%m%n" ∧
      ((reload (fun _ => false) [v']).loggers "system").formatter = defaultPattern ∧
      (reload (fun _ => false) [v, v']).loggers "system" ≠
        (reload (fun _ => false) [v']).loggers "system" := by
  decide +kernel

end Muhui.Log
