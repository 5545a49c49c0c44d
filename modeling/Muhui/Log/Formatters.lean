/-
  The formatters of loggers and their appenders (`log.cc`).

  An appender without a formatter of its own holds a copy of the pointer of a logger, which it gets
  when it is added and when the formatter of the logger is set.  Any number of loggers may share an
  appender.  `Formats` says that `log` finds a formatter and that it is the right one; a step keeps
  that exactly under the condition `Meets` (`good_step_iff`).
-/
import Muhui.Transition.Run
import Mathlib.Logic.Function.Basic
import Mathlib.Data.Nat.Notation

namespace Muhui.Log.Formatters

/-- A `LogAppender`; the pointer `m_formatter` may be null. -/
structure LogAppender (F : Type) where
  m_formatter : Option F
  m_hasFormatter : Bool

/-- A `Logger`; the list may hold an appender more than once. -/
structure Logger (A F : Type) where
  m_appenders : List A
  m_formatter : Option F

/-- All loggers and appenders. -/
structure State (L A F : Type) where
  loggers : L → Logger A F
  appenders : A → LogAppender F

/-- The calls. `Logger::setFormatter(const std::string&)` does nothing or sets a new formatter. -/
inductive Call (L A F : Type)
  | addAppender (logger : L) (appender : A)
  | delAppender (logger : L) (appender : A)
  | clearAppender (logger : L)
  | setLoggerFormatter (logger : L) (val : Option F)
  | setAppenderFormatter (appender : A) (val : Option F)

variable {L A F : Type} [DecidableEq L] [DecidableEq A]

namespace State

/-- New loggers, each with the formatter of its constructor, and new appenders. -/
def init (formatter : L → F) : State L A F where
  loggers l := { m_appenders := [], m_formatter := some (formatter l) }
  appenders _ := { m_formatter := none, m_hasFormatter := false }

/-- The appenders of a logger. -/
def attached (s : State L A F) (l : L) : List A := (s.loggers l).m_appenders

/-- `m_appenders` is set. -/
def setAppenders (s : State L A F) (l : L) (as : List A) : State L A F :=
  { s with loggers := Function.update s.loggers l { s.loggers l with m_appenders := as } }

/-- `m_formatter` of an appender is set, and not `m_hasFormatter`. -/
def giveFormatter (s : State L A F) (a : A) (val : Option F) : State L A F :=
  { s with appenders := Function.update s.appenders a { s.appenders a with m_formatter := val } }

/-- `Logger::addAppender` -/
def addAppender (s : State L A F) (l : L) (a : A) : State L A F :=
  let s' := if (s.appenders a).m_formatter.isNone then s.giveFormatter a (s.loggers l).m_formatter
    else s
  s'.setAppenders l (s'.attached l ++ [a])

/-- `Logger::delAppender` -/
def delAppender (s : State L A F) (l : L) (a : A) : State L A F :=
  s.setAppenders l ((s.attached l).erase a)

/-- `Logger::clearAppender` -/
def clearAppender (s : State L A F) (l : L) : State L A F := s.setAppenders l []

/-- `Logger::setFormatter` -/
def setLoggerFormatter (s : State L A F) (l : L) (val : Option F) : State L A F :=
  (s.attached l).foldl
    (fun s i => if (s.appenders i).m_hasFormatter then s else s.giveFormatter i val)
    { s with loggers := Function.update s.loggers l { s.loggers l with m_formatter := val } }

/-- `LogAppender::setFormatter` -/
def setAppenderFormatter (s : State L A F) (a : A) (val : Option F) : State L A F :=
  { s with
    appenders := Function.update s.appenders a
      { m_formatter := val, m_hasFormatter := val.isSome } }

def step (s : State L A F) : Call L A F → State L A F
  | .addAppender l a => s.addAppender l a
  | .delAppender l a => s.delAppender l a
  | .clearAppender l => s.clearAppender l
  | .setLoggerFormatter l val => s.setLoggerFormatter l val
  | .setAppenderFormatter a val => s.setAppenderFormatter a val

/-! ### What must hold -/

/-- The appender has a formatter, which is its own or that of a logger it is attached to. -/
def Formats (s : State L A F) (a : A) : Prop :=
  (s.appenders a).m_formatter ≠ none ∧
    ((s.appenders a).m_hasFormatter = false →
      ∃ l, a ∈ s.attached l ∧ (s.appenders a).m_formatter = (s.loggers l).m_formatter)

/-- Every appender that is attached to a logger can format. -/
def Good (s : State L A F) : Prop := ∀ l, ∀ a ∈ s.attached l, s.Formats a

/-- An appender that leaves the logger does not rely on it: it has its own formatter, or no logger
is left, or one that is left has the same formatter. -/
def Leaves (s : State L A F) (l : L) (a : A) : Prop :=
  (s.appenders a).m_hasFormatter = true ∨ (∀ l', l' ≠ l → a ∉ s.attached l') ∨
    ∃ l', l' ≠ l ∧ a ∈ s.attached l' ∧ (s.appenders a).m_formatter = (s.loggers l').m_formatter

/-- An appender that joins the logger can have its formatter: there is one to copy, or the appender
has its own, or that of a logger it is attached to, or that of this one. -/
def Joins (s : State L A F) (l : L) (a : A) : Prop :=
  match (s.appenders a).m_formatter with
  | none => (s.loggers l).m_formatter ≠ none
  | some f => (s.appenders a).m_hasFormatter = true ∨ (∃ l', a ∈ s.attached l') ∨
      (s.loggers l).m_formatter = some f

/-- The condition on a call. Null is set only where no attached appender takes it, an appender that
has been detached does not come with the formatter of another logger, and an appender does not
leave the logger whose formatter it has for one with another formatter. -/
def Meets (s : State L A F) : Call L A F → Prop
  | .addAppender l a => s.Joins l a
  | .delAppender l a => (s.attached l).count a = 1 → s.Leaves l a
  | .clearAppender l => ∀ a ∈ s.attached l, s.Leaves l a
  | .setLoggerFormatter l val =>
    val = none → ∀ a ∈ s.attached l, (s.appenders a).m_hasFormatter = true
  | .setAppenderFormatter a val => val = none → ∀ l, a ∉ s.attached l

variable {s : State L A F} {l : L} {a : A}

/-! ### What the calls change -/

omit [DecidableEq A] in
theorem attached_setAppenders (s : State L A F) (l : L) (as : List A) (l' : L) :
    (s.setAppenders l as).attached l' = if l' = l then as else s.attached l' := by
  unfold setAppenders attached
  dsimp only
  rw [Function.update_apply]
  split_ifs <;> rfl

omit [DecidableEq A] in
@[simp] theorem formatter_setAppenders (s : State L A F) (l : L) (as : List A) (l' : L) :
    ((s.setAppenders l as).loggers l').m_formatter = (s.loggers l').m_formatter := by
  unfold setAppenders
  dsimp only
  rw [Function.update_apply]
  split_ifs with h
  · rw [h]
  · rfl

omit [DecidableEq A] in
@[simp] theorem appenders_setAppenders (s : State L A F) (l : L) (as : List A) :
    (s.setAppenders l as).appenders = s.appenders := rfl

omit [DecidableEq L] in
/-- The loop of `Logger::setFormatter` sets the formatter of those without their own. -/
theorem foldl_giveFormatter (as : List A) (val : Option F) (s : State L A F) :
    as.foldl (fun s i => if (s.appenders i).m_hasFormatter then s else s.giveFormatter i val) s =
      { s with
        appenders := fun a => if a ∈ as ∧ (s.appenders a).m_hasFormatter = false then
          { s.appenders a with m_formatter := val } else s.appenders a } := by
  induction as generalizing s with
  | nil =>
    show s = _
    simp only [List.not_mem_nil, false_and, if_false]
  | cons i as ih =>
    rw [List.foldl_cons, ih]
    split_ifs with hi
    · congr 1
      funext a
      have hmem : (a ∈ i :: as ∧ (s.appenders a).m_hasFormatter = false) ↔
          (a ∈ as ∧ (s.appenders a).m_hasFormatter = false) := by
        rw [List.mem_cons]
        refine ⟨fun h => ⟨h.1.resolve_left fun ha => ?_, h.2⟩, fun h => ⟨.inr h.1, h.2⟩⟩
        cases (ha ▸ h.2).symm.trans hi
      simp only [hmem]
    · unfold giveFormatter
      congr 1
      funext a
      by_cases ha : a = i
      · subst ha
        simp [hi]
      · simp [ha]

theorem loggers_setLoggerFormatter (s : State L A F) (l : L) (val : Option F) :
    (s.setLoggerFormatter l val).loggers =
      Function.update s.loggers l { s.loggers l with m_formatter := val } := by
  rw [setLoggerFormatter, foldl_giveFormatter]

theorem appenders_setLoggerFormatter (s : State L A F) (l : L) (val : Option F) (a : A) :
    (s.setLoggerFormatter l val).appenders a =
      if a ∈ s.attached l ∧ (s.appenders a).m_hasFormatter = false then
        { s.appenders a with m_formatter := val } else s.appenders a := by
  rw [setLoggerFormatter, foldl_giveFormatter]

@[simp] theorem attached_setLoggerFormatter (s : State L A F) (l : L) (val : Option F) (l' : L) :
    (s.setLoggerFormatter l val).attached l' = s.attached l' := by
  unfold attached
  rw [loggers_setLoggerFormatter, Function.update_apply]
  split_ifs with h
  · rw [h]
  · rfl

/-- With the formatter that an appender has when it is added. -/
theorem appenders_addAppender (s : State L A F) (l : L) (a a' : A) :
    (s.addAppender l a).appenders a' =
      if a' = a ∧ (s.appenders a).m_formatter = none then
        { s.appenders a with m_formatter := (s.loggers l).m_formatter } else s.appenders a' := by
  unfold addAppender
  dsimp only
  rw [appenders_setAppenders]
  by_cases hnone : (s.appenders a).m_formatter = none
  · rw [if_pos (Option.isNone_iff_eq_none.mpr hnone)]
    unfold giveFormatter
    dsimp only
    rw [Function.update_apply]
    simp only [hnone, and_true]
  · rw [if_neg fun h => hnone (Option.isNone_iff_eq_none.mp h), if_neg fun h => hnone h.2]

theorem attached_addAppender (s : State L A F) (l : L) (a : A) (l' : L) :
    (s.addAppender l a).attached l' =
      if l' = l then s.attached l ++ [a] else s.attached l' := by
  unfold addAppender
  dsimp only
  rw [attached_setAppenders]
  split_ifs <;> rfl

theorem formatter_addAppender (s : State L A F) (l : L) (a : A) (l' : L) :
    ((s.addAppender l a).loggers l').m_formatter = (s.loggers l').m_formatter := by
  unfold addAppender
  dsimp only
  rw [formatter_setAppenders]
  split_ifs <;> rfl

/-! ### One call -/

/-- Appenders are removed from a logger. -/
theorem good_setAppenders_iff (h : s.Good) {as : List A} (has : as ⊆ s.attached l) :
    (s.setAppenders l as).Good ↔ ∀ a ∈ s.attached l, a ∉ as → s.Leaves l a := by
  constructor
  · intro hgood a ha hout
    by_contra hleaves
    obtain ⟨hown, helse, hother⟩ : (s.appenders a).m_hasFormatter ≠ true ∧
        (∃ l', l' ≠ l ∧ a ∈ s.attached l') ∧ ∀ l', l' ≠ l → a ∈ s.attached l' →
          (s.appenders a).m_formatter ≠ (s.loggers l').m_formatter := by
      simpa only [Leaves, not_or, not_forall, not_not, exists_prop, not_exists, not_and]
        using hleaves
    obtain ⟨l', hne, hl'⟩ := helse
    -- it is still attached, so it has the formatter of a logger that is left
    obtain ⟨-, hsource⟩ := hgood l' a (by rw [attached_setAppenders, if_neg hne]; exact hl')
    obtain ⟨l'', hl'', hformatter⟩ := hsource (Bool.not_eq_true _ ▸ hown)
    rw [attached_setAppenders] at hl''
    split_ifs at hl'' with heq
    · exact hout hl''
    · exact hother l'' heq hl'' (hformatter.trans (formatter_setAppenders s l as l''))
  · intro hleaves l' a ha
    rw [attached_setAppenders] at ha
    have hbefore : a ∈ s.attached l' := by
      split_ifs at ha with heq
      · exact heq ▸ has ha
      · exact ha
    obtain ⟨hsome, hsource⟩ := h l' a hbefore
    refine ⟨hsome, fun hown => ?_⟩
    obtain ⟨l₀, hl₀, hformatter⟩ := hsource hown
    by_cases hkept : l₀ = l ∧ a ∉ as
    -- the logger whose formatter it has loses it
    · obtain ⟨rfl, hout⟩ := hkept
      have hne : l' ≠ l₀ := by
        rintro rfl
        rw [if_pos rfl] at ha
        exact hout ha
      rcases hleaves a hl₀ hout with howned | hnowhere | ⟨l₁, hl₁, ha₁, hformatter₁⟩
      · cases hown.symm.trans howned
      · exact absurd hbefore (hnowhere l' hne)
      · refine ⟨l₁, ?_, hformatter₁.trans (formatter_setAppenders s l₀ as l₁).symm⟩
        rw [attached_setAppenders, if_neg hl₁]
        exact ha₁
    · refine ⟨l₀, ?_, hformatter.trans (formatter_setAppenders s l as l₀).symm⟩
      rw [attached_setAppenders]
      split_ifs with heq
      · exact not_not.mp fun hout => hkept ⟨heq, hout⟩
      · exact hl₀

theorem good_delAppender_iff (h : s.Good) :
    (s.delAppender l a).Good ↔ s.Meets (.delAppender l a) := by
  unfold delAppender
  rw [good_setAppenders_iff h List.erase_subset]
  constructor
  · intro hleaves hcount
    have hmem : a ∈ s.attached l := List.count_pos_iff.mp (by omega)
    refine hleaves a hmem (List.count_eq_zero.mp ?_)
    rw [List.count_erase_self, hcount]
  · intro hmeets a' ha' hout
    -- only the last one that is removed leaves
    obtain rfl : a' = a := by
      by_contra hne
      exact hout ((List.mem_erase_of_ne hne).mpr ha')
    have hpos := List.count_pos_iff.mpr ha'
    have hzero := List.count_eq_zero.mpr hout
    rw [List.count_erase_self] at hzero
    exact hmeets (by omega)

theorem good_clearAppender_iff (h : s.Good) :
    (s.clearAppender l).Good ↔ s.Meets (.clearAppender l) := by
  unfold clearAppender
  rw [good_setAppenders_iff h (List.nil_subset _)]
  exact forall₂_congr fun a _ => ⟨fun hleaves => hleaves List.not_mem_nil, fun hleaves _ => hleaves⟩

theorem mem_attached_addAppender {l' : L} {a' : A} :
    a' ∈ (s.addAppender l a).attached l' ↔ a' ∈ s.attached l' ∨ l' = l ∧ a' = a := by
  rw [attached_addAppender]
  split_ifs with heq
  · rw [List.mem_append, List.mem_singleton, heq]
    simp only [true_and]
  · simp only [heq, false_and, or_false]

/-- An appender that is as before is so in at least as many loggers. -/
theorem Good.formats_addAppender (h : s.Good) {l' : L} {a' : A} (ha' : a' ∈ s.attached l')
    (hsame : (s.addAppender l a).appenders a' = s.appenders a') :
    (s.addAppender l a).Formats a' := by
  obtain ⟨hsome, hsource⟩ := h l' a' ha'
  refine ⟨hsame ▸ hsome, fun hown => ?_⟩
  obtain ⟨l₀, hl₀, hformatter⟩ := hsource (hsame ▸ hown)
  refine ⟨l₀, mem_attached_addAppender.mpr (.inl hl₀), ?_⟩
  rw [hsame, formatter_addAppender, hformatter]

theorem good_addAppender_iff (h : s.Good) :
    (s.addAppender l a).Good ↔ s.Joins l a := by
  have hadded : a ∈ (s.addAppender l a).attached l :=
    mem_attached_addAppender.mpr (.inr ⟨rfl, rfl⟩)
  unfold Joins
  cases hnone : (s.appenders a).m_formatter with
  | none =>
    have happender := s.appenders_addAppender l a a
    rw [if_pos ⟨rfl, hnone⟩] at happender
    constructor
    · intro hgood hnull
      refine (hgood l a hadded).1 ?_
      rw [happender]
      exact hnull
    · intro hformatter l' a' ha'
      by_cases heq : a' = a
      -- the appender gets the formatter of this logger
      · subst heq
        refine ⟨by rw [happender]; exact hformatter, fun _ => ⟨l, hadded, ?_⟩⟩
        rw [happender, formatter_addAppender]
      · have hbefore := (mem_attached_addAppender.mp ha').resolve_right fun h => heq h.2
        refine h.formats_addAppender hbefore ?_
        rw [appenders_addAppender, if_neg fun h => heq h.1]
  | some f =>
    have hsame : ∀ a', (s.addAppender l a).appenders a' = s.appenders a' := fun a' => by
      rw [appenders_addAppender, if_neg]
      rintro ⟨-, hnull⟩
      cases hnone.symm.trans hnull
    constructor
    · intro hgood
      by_cases hown : (s.appenders a).m_hasFormatter = true
      · exact .inl hown
      obtain ⟨l₀, hl₀, hformatter⟩ := (hgood l a hadded).2
        (by rw [hsame]; exact Bool.not_eq_true _ ▸ hown)
      rw [hsame, formatter_addAppender, hnone] at hformatter
      rcases mem_attached_addAppender.mp hl₀ with hl₀ | ⟨rfl, -⟩
      · exact .inr (.inl ⟨l₀, hl₀⟩)
      · exact .inr (.inr hformatter.symm)
    · intro hmeets l' a' ha'
      rcases mem_attached_addAppender.mp ha' with ha' | ⟨rfl, rfl⟩
      · exact h.formats_addAppender ha' (hsame a')
      rcases hmeets with hown | ⟨l₀, hl₀⟩ | hformatter
      · refine ⟨by rw [hsame, hnone]; exact Option.some_ne_none f, fun hnot => ?_⟩
        rw [hsame, hown] at hnot
        cases hnot
      · exact h.formats_addAppender hl₀ (hsame a')
      · refine ⟨by rw [hsame, hnone]; exact Option.some_ne_none f, fun _ => ⟨l', hadded, ?_⟩⟩
        rw [hsame, formatter_addAppender, hnone, hformatter]

theorem good_setLoggerFormatter_iff (h : s.Good) {val : Option F} :
    (s.setLoggerFormatter l val).Good ↔ s.Meets (.setLoggerFormatter l val) := by
  have hformatter : ((s.setLoggerFormatter l val).loggers l).m_formatter = val := by
    rw [loggers_setLoggerFormatter, Function.update_self]
  constructor
  · rintro hgood rfl a ha
    by_contra hown
    refine (hgood l a (by rw [attached_setLoggerFormatter]; exact ha)).1 ?_
    rw [appenders_setLoggerFormatter, if_pos ⟨ha, Bool.not_eq_true _ ▸ hown⟩]
  · intro hmeets l' a ha
    rw [attached_setLoggerFormatter] at ha
    unfold Formats
    rw [appenders_setLoggerFormatter]
    split_ifs with hgiven
    -- an appender of the logger without its own formatter gets the new one
    · refine ⟨fun hnull => ?_, fun _ => ⟨l, ?_, hformatter.symm⟩⟩
      · cases hgiven.2.symm.trans (hmeets hnull a hgiven.1)
      · rw [attached_setLoggerFormatter]
        exact hgiven.1
    · obtain ⟨hsome, hsource⟩ := h l' a ha
      refine ⟨hsome, fun hown => ?_⟩
      obtain ⟨l₀, hl₀, heq⟩ := hsource hown
      have hne : l₀ ≠ l := by
        rintro rfl
        exact hgiven ⟨hl₀, hown⟩
      refine ⟨l₀, by rw [attached_setLoggerFormatter]; exact hl₀, ?_⟩
      rw [loggers_setLoggerFormatter, Function.update_of_ne hne, heq]

omit [DecidableEq L] in
theorem good_setAppenderFormatter_iff (h : s.Good) {val : Option F} :
    (s.setAppenderFormatter a val).Good ↔ s.Meets (.setAppenderFormatter a val) := by
  have happender : ∀ a', (s.setAppenderFormatter a val).appenders a' =
      if a' = a then { m_formatter := val, m_hasFormatter := val.isSome }
      else s.appenders a' := fun a' => Function.update_apply ..
  constructor
  · rintro hgood rfl l ha
    refine (hgood l a ha).1 ?_
    rw [happender, if_pos rfl]
  · intro hmeets l' a' ha'
    unfold Formats
    rw [happender]
    split_ifs with heq
    · have hsome : val ≠ none := fun hnull => hmeets hnull l' (heq ▸ ha')
      refine ⟨hsome, fun hown => ?_⟩
      cases hown.symm.trans (Option.isSome_iff_ne_none.mpr hsome)
    · exact h l' a' ha'

/-- **Step lemma.** A call leaves all attached appenders with a formatter exactly when it meets the
condition. -/
theorem good_step_iff (h : s.Good) (c : Call L A F) : (s.step c).Good ↔ s.Meets c := by
  cases c with
  | addAppender l a => exact good_addAppender_iff h
  | delAppender l a => exact good_delAppender_iff h
  | clearAppender l => exact good_clearAppender_iff h
  | setLoggerFormatter l val => exact good_setLoggerFormatter_iff h
  | setAppenderFormatter a val => exact good_setAppenderFormatter_iff h

/-! ### Runs -/

/-- The calls one after another. -/
def run (s : State L A F) (cs : List (Call L A F)) : State L A F := cs.foldl step s

/-- Every attached appender can format all along exactly when all calls meet the condition. -/
theorem good_along_iff (formatter : L → F) (cs : List (Call L A F)) :
    (∀ pre, pre <+: cs → ∀ l, ∀ a ∈ (run (init formatter) pre).attached l,
        (run (init formatter) pre).Formats a) ↔
      ∀ pre c, pre ++ [c] <+: cs → (run (init formatter) pre).Meets c :=
  Transition.along_iff (fun _ => True) Good (fun _ _ _ => trivial)
    (fun _ c _ h => good_step_iff h c) trivial (fun _ _ h => absurd h List.not_mem_nil) cs

/-- An appender whose formatter is reset after it has been added has none. -/
theorem not_formats_of_reset :
    let s := run (init fun _ : ℕ => "%m%n")
      [.addAppender 0 (0 : ℕ), .setAppenderFormatter 0 (some "%d%n"), .setAppenderFormatter 0 none]
    0 ∈ s.attached 0 ∧ (s.appenders 0).m_formatter = none :=
  ⟨List.mem_singleton_self 0, rfl⟩

/-- An appender that is moved to another logger keeps the formatter of the first one. -/
example :
    let s := run (init fun l : ℕ => if l = 0 then "%m%n" else "%d%n")
      [.addAppender 0 (0 : ℕ), .delAppender 0 0, .addAppender 1 0]
    0 ∈ s.attached 1 ∧ (s.appenders 0).m_formatter = some "%m%n" :=
  ⟨List.mem_singleton_self 0, rfl⟩

end State

end Muhui.Log.Formatters
