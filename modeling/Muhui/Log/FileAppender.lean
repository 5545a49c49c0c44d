/-
  `FileLogAppender` (`log.cc`) and the `std::ofstream` that it writes to.  What is written counts as
  flushed, as it is when the pattern ends in `%n`.

  A new appender opens its file, and `log` opens it again at an event that is three seconds or more
  behind the last time that it did.  A stream that has failed writes nothing.  To open a file sets
  it right, but where a file is open that fails as well, and `reopen` closes only a stream that has
  not failed.  So the appender gets over a file that cannot be opened, but never over a write that
  fails (`written_of_writeFailed`).

  `F` are the files that the path may name from one time to another.
-/
import Muhui.Log.Reload
import Mathlib.Data.List.TakeDrop

namespace Muhui.Log

/-- The number of a level. -/
def Level.val : Level → ℕ
  | unkonw => 0
  | debug => 1
  | info => 2
  | warn => 3
  | error => 4
  | fatal => 5

/-! ### The stream -/

/-- `std::ofstream` -/
structure Ofstream (F : Type) where
  file : Option F
  failed : Bool
  deriving DecidableEq

namespace Ofstream

variable {F : Type}

/-- `open`, with the file that the system opens, if any. -/
def open_ (s : Ofstream F) (opened : Option F) : Ofstream F :=
  if s.file.isSome ∨ opened = none then { s with failed := true }
  else { file := opened, failed := false }

/-- `close`, which may fail to write what is left. -/
def close (s : Ofstream F) (flushed : Bool) : Ofstream F :=
  { file := none, failed := s.failed || s.file.isNone || !flushed }

end Ofstream

/-! ### The appender -/

structure Event where
  level : Level
  time : UInt64
  /-- What the formatter makes of it. -/
  text : List UInt8

/-- What the system answers during a call of `log`. -/
structure Answers (F : Type) where
  flushed : Bool
  opened : Option F
  /-- How many bytes the file takes. -/
  takes : ℕ

structure FileLogAppender (F : Type) where
  m_level : Level
  m_filestream : Ofstream F
  m_lastTime : UInt64
  /-- What has come to the files. -/
  written : List (F × List UInt8)

/-- The calls of an appender that write or decide what is written. -/
inductive AppenderCall (F : Type)
  | setLevel (val : Level)
  | log (e : Event) (a : Answers F)

namespace FileLogAppender

variable {F : Type}

/-- `FileLogAppender::reopen` -/
def reopen (s : FileLogAppender F) (flushed : Bool) (opened : Option F) : FileLogAppender F :=
  let m_filestream :=
    if s.m_filestream.failed then s.m_filestream else s.m_filestream.close flushed
  { s with m_filestream := m_filestream.open_ opened }

/-- `FileLogAppender::FileLogAppender` -/
def new (opened : Option F) : FileLogAppender F :=
  reopen
    { m_level := .debug
      m_filestream := { file := none, failed := false }
      m_lastTime := 0
      written := [] } true opened

/-- `m_formatter->format(m_filestream, ..)` -/
def write (s : FileLogAppender F) (text : List UInt8) (takes : ℕ) : FileLogAppender F :=
  if s.m_filestream.failed then s
  else
    match s.m_filestream.file with
    | none => { s with m_filestream := { s.m_filestream with failed := true } }
    | some f =>
      { s with
        m_filestream := { file := some f, failed := takes < text.length }
        written := s.written ++ [(f, text.take takes)] }

/-- The file is to be opened again. -/
def Due (m_lastTime now : UInt64) : Prop := m_lastTime + 3 ≤ now

instance (m_lastTime now : UInt64) : Decidable (Due m_lastTime now) :=
  inferInstanceAs (Decidable (_ ≤ _))

/-- `FileLogAppender::log` -/
def log (s : FileLogAppender F) (e : Event) (a : Answers F) : FileLogAppender F :=
  if s.m_level.val ≤ e.level.val then
    let s :=
      if Due s.m_lastTime e.time then
        { s.reopen a.flushed a.opened with m_lastTime := e.time }
      else s
    s.write e.text a.takes
  else s

def step (s : FileLogAppender F) : AppenderCall F → FileLogAppender F
  | .setLevel val => { s with m_level := val }
  | .log e a => s.log e a

/-- The appender after the calls, with what its constructor opened. -/
def run (opened : Option F) (as : List (AppenderCall F)) : FileLogAppender F :=
  as.foldl step (new opened)

end FileLogAppender

/-! ### What was tried -/

open FileLogAppender (Due)

/-- The level, and when and with what result the file was last tried. -/
structure Tries (F : Type) where
  level : Level
  time : UInt64
  opened : Option F

namespace Tries

variable {F : Type}

def step (s : Tries F) : AppenderCall F → Tries F
  | .setLevel val => { s with level := val }
  | .log e a =>
    if s.level.val ≤ e.level.val ∧ Due s.time e.time then
      { s with time := e.time, opened := a.opened }
    else s

/-- Whether the file was tried depends on the events alone. -/
def run (opened : Option F) (as : List (AppenderCall F)) : Tries F :=
  as.foldl step { level := .debug, time := 0, opened }

theorem run_append (opened : Option F) (as : List (AppenderCall F)) (c : AppenderCall F) :
    run opened (as ++ [c]) = (run opened as).step c :=
  List.foldl_append

end Tries

/-- Some event was not written whole to a file that was open. -/
def WriteFailed {F : Type} (opened : Option F) (as : List (AppenderCall F)) : Prop :=
  ∃ pre e a, pre ++ [.log e a] <+: as ∧ (Tries.run opened pre).level.val ≤ e.level.val ∧
    (Tries.run opened (pre ++ [.log e a])).opened ≠ none ∧ a.takes < e.text.length

/-! ### The stream follows the tries -/

section Follows

variable {F : Type} {opened : Option F} {as : List (AppenderCall F)} {s : FileLogAppender F}

/-- The stream that no write has failed on. -/
def Ofstream.ofTry (opened : Option F) : Ofstream F :=
  { file := opened, failed := opened.isNone }

/-- The stream of the appender is that of the last try, until a write fails. -/
structure Follows (opened : Option F) (as : List (AppenderCall F)) (s : FileLogAppender F) :
    Prop where
  level : s.m_level = (Tries.run opened as).level
  time : s.m_lastTime = (Tries.run opened as).time
  stuck : WriteFailed opened as →
    s.m_filestream.failed = true ∧ s.m_filestream.file.isSome = true
  sound : ¬ WriteFailed opened as → s.m_filestream = .ofTry (Tries.run opened as).opened

theorem writeFailed_append {c : AppenderCall F} :
    WriteFailed opened (as ++ [c]) ↔
      WriteFailed opened as ∨ ∃ e a, c = .log e a ∧
        (Tries.run opened as).level.val ≤ e.level.val ∧
        (Tries.run opened (as ++ [c])).opened ≠ none ∧ a.takes < e.text.length := by
  constructor
  · rintro ⟨pre, e, a, hpre, hlevel, hopen, htakes⟩
    rcases List.prefix_concat_iff.mp hpre with heq | hpre
    · obtain ⟨rfl, hc⟩ := List.append_inj' heq rfl
      obtain rfl : AppenderCall.log e a = c := List.singleton_inj.mp hc
      exact .inr ⟨e, a, rfl, hlevel, hopen, htakes⟩
    · exact .inl ⟨pre, e, a, hpre, hlevel, hopen, htakes⟩
  · rintro (⟨pre, e, a, hpre, hfails⟩ | ⟨e, a, rfl, hfails⟩)
    · exact ⟨pre, e, a, hpre.trans (List.prefix_append as [c]), hfails⟩
    · exact ⟨as, e, a, List.prefix_rfl, hfails⟩

/-- A stream that is as it was opened is opened again. -/
theorem reopen_ofTry {o : Option F} (h : s.m_filestream = .ofTry o) (flushed : Bool)
    (o' : Option F) : (s.reopen flushed o').m_filestream = .ofTry o' := by
  show (if s.m_filestream.failed then s.m_filestream else s.m_filestream.close flushed).open_ o' = _
  rw [h]
  cases o <;> cases o' <;> rfl

/-- A stream that has failed with its file open stays so. -/
theorem reopen_stuck (h : s.m_filestream.failed = true ∧ s.m_filestream.file.isSome = true)
    (flushed : Bool) (o' : Option F) :
    (s.reopen flushed o').m_filestream.failed = true ∧
      (s.reopen flushed o').m_filestream.file.isSome = true := by
  have hopen : (s.reopen flushed o').m_filestream = { s.m_filestream with failed := true } := by
    show (if s.m_filestream.failed then s.m_filestream else _).open_ o' = _
    rw [if_pos h.1, Ofstream.open_, if_pos (.inl h.2)]
  rw [hopen]
  exact ⟨rfl, h.2⟩

/-- A write that the file takes leaves the stream as it was opened. -/
theorem write_ofTry {o : Option F} {text : List UInt8} {takes : ℕ}
    (h : s.m_filestream = .ofTry o) (hwhole : o ≠ none → text.length ≤ takes) :
    (s.write text takes).m_filestream = .ofTry o := by
  rw [FileLogAppender.write, h]
  cases o with
  | none => exact h
  | some f =>
    have htakes : ¬takes < text.length := Nat.not_lt.mpr (hwhole (by simp))
    simp [Ofstream.ofTry, htakes]

/-- A write that the file does not take fails. -/
theorem write_short {o : Option F} {text : List UInt8} {takes : ℕ}
    (h : s.m_filestream = .ofTry o) (hopen : o ≠ none) (hshort : takes < text.length) :
    (s.write text takes).m_filestream.failed = true ∧
      (s.write text takes).m_filestream.file.isSome = true := by
  obtain ⟨f, rfl⟩ := Option.ne_none_iff_exists'.mp hopen
  rw [FileLogAppender.write, h]
  simp [Ofstream.ofTry, hshort]

/-- A stream that has failed writes nothing. -/
theorem write_stuck {text : List UInt8} {takes : ℕ} (h : s.m_filestream.failed = true) :
    s.write text takes = s :=
  if_pos h

/-- What a write leaves alone. -/
@[simp]
theorem write_level (text : List UInt8) (takes : ℕ) :
    (s.write text takes).m_level = s.m_level := by
  unfold FileLogAppender.write
  split_ifs
  · rfl
  · cases s.m_filestream.file <;> rfl

@[simp]
theorem write_lastTime (text : List UInt8) (takes : ℕ) :
    (s.write text takes).m_lastTime = s.m_lastTime := by
  unfold FileLogAppender.write
  split_ifs
  · rfl
  · cases s.m_filestream.file <;> rfl

/-- The stream that an event of the appender's level is written to. -/
theorem Follows.log_stream (hs : Follows opened as s) {e : Event}
    (hlevel : (Tries.run opened as).level.val ≤ e.level.val) (a : Answers F) :
    ∃ s' : FileLogAppender F, s.log e a = s'.write e.text a.takes ∧ s'.written = s.written ∧
      s'.m_level = s.m_level ∧ s'.m_lastTime = (Tries.run opened (as ++ [.log e a])).time ∧
      (WriteFailed opened as →
        s'.m_filestream.failed = true ∧ s'.m_filestream.file.isSome = true) ∧
      (¬ WriteFailed opened as →
        s'.m_filestream = .ofTry (Tries.run opened (as ++ [.log e a])).opened) := by
  have hpass : s.m_level.val ≤ e.level.val := by rw [hs.level]; exact hlevel
  rw [FileLogAppender.log, if_pos hpass, Tries.run_append, Tries.step]
  by_cases hdue : Due s.m_lastTime e.time
  · rw [if_pos hdue, if_pos ⟨hlevel, hs.time ▸ hdue⟩]
    refine ⟨_, rfl, rfl, rfl, rfl, fun h => ?_, fun h => ?_⟩
    · exact reopen_stuck (hs.stuck h) a.flushed a.opened
    · exact reopen_ofTry (hs.sound h) a.flushed a.opened
  · rw [if_neg hdue, if_neg fun h => hdue (hs.time ▸ h.2)]
    exact ⟨s, rfl, rfl, rfl, hs.time, hs.stuck, hs.sound⟩

theorem tries_level_log (e : Event) (a : Answers F) :
    (Tries.run opened (as ++ [.log e a])).level = (Tries.run opened as).level := by
  rw [Tries.run_append, Tries.step]
  split_ifs <;> rfl

/-- A call keeps what the stream is, unless it is a write that fails. -/
theorem Follows.step (hs : Follows opened as s) (c : AppenderCall F) :
    Follows opened (as ++ [c]) (s.step c) := by
  cases c with
  | setLevel val =>
    have hkeep : WriteFailed opened (as ++ [.setLevel val]) ↔ WriteFailed opened as := by
      simp [writeFailed_append]
    constructor
    · simp [FileLogAppender.step, Tries.run_append, Tries.step]
    · simpa [FileLogAppender.step, Tries.run_append, Tries.step] using hs.time
    · intro h
      exact hs.stuck (hkeep.mp h)
    · intro h
      simpa [FileLogAppender.step, Tries.run_append, Tries.step] using hs.sound (mt hkeep.mpr h)
  | log e a =>
    show Follows opened _ (s.log e a)
    by_cases hlevel : (Tries.run opened as).level.val ≤ e.level.val
    · obtain ⟨s', hlog, -, hlevel', htime, hstuck, hsound⟩ := hs.log_stream hlevel a
      rw [hlog]
      constructor
      · rw [write_level, hlevel', hs.level, tries_level_log]
      · rw [write_lastTime, htime]
      · intro h
        by_cases hfailed : WriteFailed opened as
        · rw [write_stuck (hstuck hfailed).1]
          exact hstuck hfailed
        -- the write that fails is this one
        · rcases writeFailed_append.mp h with h | ⟨e', a', heq, -, hopen, hshort⟩
          · exact absurd h hfailed
          · cases heq
            exact write_short (hsound hfailed) hopen hshort
      · intro h
        rw [writeFailed_append, not_or] at h
        apply write_ofTry (hsound h.1)
        intro hopen
        by_contra hshort
        exact h.2 ⟨e, a, rfl, hlevel, hopen, Nat.lt_of_not_le hshort⟩
    -- an event that is not of the level is left out
    · have hpass : ¬ s.m_level.val ≤ e.level.val := by rwa [hs.level]
      have htries : Tries.run opened (as ++ [.log e a]) = Tries.run opened as := by
        rw [Tries.run_append, Tries.step, if_neg fun h => hlevel h.1]
      have hkeep : WriteFailed opened (as ++ [.log e a]) ↔ WriteFailed opened as := by
        rw [writeFailed_append, or_iff_left]
        rintro ⟨e', a', heq, hlevel', -⟩
        cases heq
        exact hlevel hlevel'
      rw [FileLogAppender.log, if_neg hpass]
      constructor
      · rw [htries]; exact hs.level
      · rw [htries]; exact hs.time
      · rw [hkeep]; exact hs.stuck
      · rw [hkeep, htries]; exact hs.sound

theorem follows_new : Follows opened [] (.new opened) := by
  have hsound : ¬ WriteFailed opened ([] : List (AppenderCall F)) := by
    rintro ⟨pre, e, a, hpre, -⟩
    simp at hpre
  constructor
  · rfl
  · rfl
  · exact fun h => absurd h hsound
  -- to close the file that is not open fails, and to open one sets it right
  · intro h
    show (Ofstream.close _ true).open_ opened = _
    cases opened <;> rfl

theorem follows_run (as : List (AppenderCall F)) : Follows opened as (.run opened as) := by
  induction as using List.reverseRecOn with
  | nil => exact follows_new
  | append_singleton as c ih =>
    have hrun : FileLogAppender.run opened (as ++ [c]) = (FileLogAppender.run opened as).step c :=
      List.foldl_append
    rw [hrun]
    exact ih.step c

end Follows

/-! ### What comes to the file -/

section Delivery

variable {F : Type}

/-- When an event is let through, the last try is not three seconds older. -/
theorem tried_recently (opened : Option F) (as : List (AppenderCall F)) {e : Event}
    (a : Answers F) (hlevel : (Tries.run opened as).level.val ≤ e.level.val) :
    e.time.toNat < (Tries.run opened (as ++ [.log e a])).time.toNat + 3 := by
  rw [Tries.run_append, Tries.step]
  by_cases hdue : Due (Tries.run opened as).time e.time
  · rw [if_pos ⟨hlevel, hdue⟩]
    simp
  · rw [if_neg fun h => hdue h.2]
    rw [Due, UInt64.le_iff_toNat_le, UInt64.toNat_add] at hdue
    have hlt := e.time.toNat_lt
    simp at hdue
    omega

theorem run_append (opened : Option F) (as bs : List (AppenderCall F)) :
    FileLogAppender.run opened (as ++ bs) =
      bs.foldl FileLogAppender.step (FileLogAppender.run opened as) :=
  List.foldl_append

/-- When a write has failed nothing more is written. -/
theorem written_of_writeFailed {opened : Option F} {as : List (AppenderCall F)}
    (h : WriteFailed opened as) (bs : List (AppenderCall F)) :
    (FileLogAppender.run opened (as ++ bs)).written = (FileLogAppender.run opened as).written := by
  induction bs using List.reverseRecOn with
  | nil => rw [List.append_nil]
  | append_singleton bs c ih =>
    rw [← ih, ← List.append_assoc, run_append _ (as ++ bs) [c]]
    have hfailed : WriteFailed opened (as ++ bs) := by
      obtain ⟨pre, e, a, hpre, hfails⟩ := h
      exact ⟨pre, e, a, hpre.trans (List.prefix_append as bs), hfails⟩
    have hs : Follows opened (as ++ bs) (.run opened (as ++ bs)) := follows_run _
    cases c with
    | setLevel val => rfl
    | log e a =>
      show (FileLogAppender.log _ e a).written = _
      by_cases hlevel : (Tries.run opened (as ++ bs)).level.val ≤ e.level.val
      · obtain ⟨s', hlog, hwritten, -, -, hstuck, -⟩ := hs.log_stream hlevel a
        rw [hlog, write_stuck (hstuck hfailed).1, hwritten]
      · rw [FileLogAppender.log, if_neg (by rwa [hs.level])]

/-- An event of the level is written whole to the file of the last try, if that was opened, if no
write before has failed and if the file takes it.  The last try is less than three seconds old, and
when a write has failed nothing more is ever written. -/
theorem delivers_iff (opened : Option F) (as : List (AppenderCall F)) {e : Event}
    (a : Answers F) (hlevel : (Tries.run opened as).level.val ≤ e.level.val) :
    (∀ f, ((FileLogAppender.run opened as).log e a).written =
          (FileLogAppender.run opened as).written ++ [(f, e.text)] ↔
        ¬ WriteFailed opened as ∧ (Tries.run opened (as ++ [.log e a])).opened = some f ∧
          e.text.length ≤ a.takes) ∧
      ((Tries.run opened as).time ≤ e.time →
        e.time.toNat < (Tries.run opened (as ++ [.log e a])).time.toNat + 3) ∧
      (WriteFailed opened as → ∀ bs,
        (FileLogAppender.run opened (as ++ bs)).written =
          (FileLogAppender.run opened as).written) := by
  refine ⟨fun f => ?_, fun _ => tried_recently opened as a hlevel, written_of_writeFailed⟩
  obtain ⟨s', hlog, hwritten, -, -, hstuck, hsound⟩ := (follows_run as).log_stream hlevel a
  rw [hlog, ← hwritten]
  by_cases hfailed : WriteFailed opened as
  · rw [write_stuck (hstuck hfailed).1]
    simp [hfailed]
  · rw [FileLogAppender.write, hsound hfailed]
    cases ho : (Tries.run opened (as ++ [.log e a])).opened with
    | none => simp [Ofstream.ofTry]
    | some f' =>
      simp only [Ofstream.ofTry, Option.isNone_some, Bool.false_eq_true, if_false,
        List.append_cancel_left_eq, List.cons.injEq, Prod.mk.injEq, and_true, hfailed,
        not_false_eq_true, true_and, Option.some.injEq]
      exact and_congr_right fun _ => List.take_eq_self_iff e.text

/-- A file that could not be opened is there at the next try, so the event comes to it. -/
theorem delivers_iff_second_try :
    ((FileLogAppender.run (F := ℕ) none
        [.log ⟨.info, 10, [104]⟩ ⟨true, none, 9⟩]).log ⟨.warn, 13, [105, 10]⟩
          ⟨true, some 7, 9⟩).written = [(7, [105, 10])] := by
  have h := (delivers_iff (F := ℕ) none [.log ⟨.info, 10, [104]⟩ ⟨true, none, 9⟩]
    (e := ⟨.warn, 13, [105, 10]⟩) ⟨true, some 7, 9⟩ (by decide)).1 7
  refine h.mpr ⟨?_, by decide, by decide⟩
  rw [← List.nil_append [AppenderCall.log _ _], writeFailed_append, not_or]
  constructor
  · rintro ⟨pre, e, a, hpre, -⟩
    simp at hpre
  · rintro ⟨e, a, -, -, hopen, -⟩
    exact hopen rfl

end Delivery

end Muhui.Log
