/-
  Reading a text token by token.

  Both parsers keep the same registers and hand tokens to callbacks, so what their scanners do with
  a token, and with a header line, is stated once.  `Reads` says that from a place `f`, with the
  message `m` filled in so far and no error, the scanner reads the bytes `bs` of the buffer and is
  then at `f'` with the message `m'`, wherever the bytes stand.
-/
import Muhui.Http.RequestParser
import Muhui.Scanner.Fragment

namespace Muhui.Http

open Scanner

/-! ### Character classes of the grammar -/

/-- The unescaped characters of `pchar`. -/
def isPchar (b : UInt8) : Bool :=
  128 ≤ b || isUpper b || isLower b || isDigit b || b ∈ bytes "-._~!$&'()*+,;=:@"

/-- `pchar | "/" | "?"`. -/
def isQueryChar (b : UInt8) : Bool := isPchar b || b == 47 || b == 63

/-- The characters of a token: ASCII without control characters and separators. -/
def isTokenChar (b : UInt8) : Bool :=
  isUpper b || isLower b || isDigit b || b ∈ bytes "!#$%&'*+-.^_`|~"

/-- A character of a header value that is neither a control character nor a blank. -/
def isValueChar (b : UInt8) : Bool := 33 ≤ b && b != 127

def isMethodChar (b : UInt8) : Bool := isUpper b || isDigit b

/-- `(" " | "\t")`. -/
def isBlank (b : UInt8) : Bool := b == 32 || b == 9

/-- What every version begins with. -/
def versionPrefix : Bytes := bytes "HTTP/1."

/-! ### Reading -/

variable {α M : Type} {A : Automaton α} {F : Fragment α} {rel : F.Place → A.State → Prop}
variable {act : ℕ → α → ParserData M → Option (ParserData M)} {flag stops : α → Bool}
variable {buffer : Bytes}

/-- The data of a parser that has filled in `m` without error. -/
def Holding (m : M) (s : ParserData M) : Prop := s.message = m ∧ s.error = 0

variable (A F rel act stops buffer) in
/-- The scanner reads `bs` from the buffer on its way from `f` to `f'`, and `m` becomes `m'`. -/
def Reads (f : F.Place) (m : M) (bs : Bytes) (f' : F.Place) (m' : M) : Prop :=
  ∀ p rest, buffer.drop p = bs ++ rest →
    Moves A F rel act stops p f (Holding m) bs f' (Holding m')

theorem Reads.nil {f : F.Place} {m : M} : Reads A F rel act stops buffer f m [] f m :=
  fun _ _ _ => .nil fun _ h => h

theorem Reads.append {f f' f'' : F.Place} {m m' m'' : M} {bs bs' : Bytes}
    (h : Reads A F rel act stops buffer f m bs f' m')
    (h' : Reads A F rel act stops buffer f' m' bs' f'' m'') :
    Reads A F rel act stops buffer f m (bs ++ bs') f'' m'' := by
  intro p rest hbuffer
  rw [List.append_assoc] at hbuffer
  refine (h p _ hbuffer).append rfl (h' _ rest ?_)
  rw [← List.drop_drop, hbuffer, List.drop_left]

/-! ### Lengths and strings -/

theorem len_eq {m n : ℕ} (hn : n < 2 ^ 63) : len m (m + n) = n := by
  have hsub : m + n + 2 ^ 64 - m = n + 2 ^ 64 := by omega
  rw [len, hsub, Nat.add_mod_right]
  exact Nat.mod_eq_of_lt (hn.trans (by norm_num))

theorem stringAt_eq {p : ℕ} {tok rest : Bytes} (h : buffer.drop p = tok ++ rest)
    (htok : tok.length < 2 ^ 63) : stringAt buffer p tok.length = some tok := by
  rw [stringAt, if_pos htok, h, List.take_left]

/-! ### Tokens -/

/-- What is asked of the flags of a scanner. -/
structure FlagRules (flag stops : α → Bool) (act : ℕ → α → ParserData M → Option (ParserData M)) :
    Prop where
  act : ∀ p a s, flag a = true → act p a s = some s
  stops : ∀ a, flag a = true → stops a = false

variable (flags : FlagRules flag stops act) (follows : Follows A F flag rel)

include flags follows

/-- A token: its first byte sets a register, the others have no actions, and the byte behind it
reports the token. -/
theorem token_moves {f g g' f' : F.Place} {m : M} {b d : UInt8} {bs : Bytes} {p : ℕ}
    {a : α} {Q : ParserData M → Prop} (reg : ParserData M → ℕ) (acts : List α)
    (hstart : F.step f b = some (g, [[a]])) (hwalk : F.walk g bs = some g')
    (hend : F.step g' d = some (f', [acts])) (ha : stops a = false) (hacts : acts.any stops = false)
    (hset : ∀ s, Holding m s → ∃ s', act p a s = some s' ∧ Holding m s' ∧ reg s' = p)
    (hreport : ∀ s, Holding m s → reg s = p →
      ∃ s', runActions act (p + (b :: bs).length) acts s = some s' ∧ Q s') :
    Moves A F rel act stops p f (Holding m) (b :: bs ++ [d]) f' Q := by
  have hfirst : Moves A F rel act stops p f (Holding m) [b] g (fun s => Holding m s ∧ reg s = p) :=
    follows.single flags.act flags.stops hstart fun as has => by
      obtain rfl := List.mem_singleton.mp has
      refine ⟨by simp [ha], fun s hs => ?_⟩
      obtain ⟨s', hs', hm, hreg⟩ := hset s hs
      exact ⟨s', by rw [runActions_cons_eq_some]; exact ⟨s', hs', rfl⟩, hm, hreg⟩
  have hlast : Moves A F rel act stops (p + (b :: bs).length) g' (fun s => Holding m s ∧ reg s = p)
      [d] f' Q :=
    follows.single flags.act flags.stops hend fun as has => by
      obtain rfl := List.mem_singleton.mp has
      exact ⟨hacts, fun s hs => hreport s hs.1 hs.2⟩
  have hmid := follows.walk (p := p + 1) (P := fun s => Holding m s ∧ reg s = p)
    flags.act flags.stops hwalk
  exact (hfirst.append rfl hmid).append (by simp) hlast

/-- A token that is reported without error. -/
theorem Reads.token {f g g' f' : F.Place} {m m' : M} {b d : UInt8} {bs : Bytes}
    {a : α} (reg : ParserData M → ℕ) (acts : List α)
    (hstart : F.step f b = some (g, [[a]])) (hwalk : F.walk g bs = some g')
    (hend : F.step g' d = some (f', [acts])) (ha : stops a = false) (hacts : acts.any stops = false)
    (hset : ∀ p s, Holding m s → ∃ s', act p a s = some s' ∧ Holding m s' ∧ reg s' = p)
    (hreport : ∀ p rest s, buffer.drop p = b :: bs ++ rest → Holding m s → reg s = p →
      ∃ s', runActions act (p + (b :: bs).length) acts s = some s' ∧ Holding m' s') :
    Reads A F rel act stops buffer f m (b :: bs ++ [d]) f' m' := by
  intro p rest hbuffer
  rw [List.append_assoc] at hbuffer
  exact token_moves flags follows reg acts hstart hwalk hend ha hacts (hset p) fun s hs hreg =>
    hreport p _ s hbuffer hs hreg

/-- Moves without actions. -/
theorem Reads.walk {f f' : F.Place} {m : M} {bs : Bytes} (h : F.walk f bs = some f') :
    Reads A F rel act stops buffer f m bs f' m :=
  fun _ _ _ => follows.walk flags.act flags.stops h

/-! ### Header lines -/

omit flags follows

/-- The places, the actions and the blanks with which a scanner reads a header line. -/
structure FieldGrammar (F : Fragment α) where
  lineStart : F.Place
  name : F.Place
  colon : F.Place
  value : F.Place
  cr : F.Place
  emptyCr : F.Place
  afterEmpty : F.Place
  mark : α
  startField : α
  writeField : α
  startValue : α
  writeValue : α
  skip : UInt8 → Bool
  valueStart : UInt8 → Bool

/-- How a scanner reads a header line.  The blanks behind the colon each start the value anew, so
the value begins behind them; a line may leave the scanner at another place when its value is
empty. -/
structure FieldRules (G : FieldGrammar F) (stops : α → Bool)
    (act : ℕ → α → ParserData M → Option (ParserData M)) (buffer : Bytes)
    (setHeader : M → Bytes → Bytes → M) : Prop where
  start : ∀ f, f = G.lineStart ∨ f = G.afterEmpty → ∀ b, isTokenChar b = true →
    ∃ opts, F.step f b = some (G.name, opts) ∧
      ∀ as ∈ opts, as = [G.startField] ∨ as = [G.mark, G.startField]
  name : ∀ b, isTokenChar b = true → F.step G.name b = some (G.name, [[]])
  colon : F.step G.name 58 = some (G.colon, [[G.writeField]])
  skip : ∀ b, G.skip b = true → F.step G.colon b = some (G.colon, [[G.startValue]])
  value : ∀ b, G.valueStart b = true → F.step G.colon b = some (G.value, [[G.startValue]])
  more : ∀ b, G.skip b = true ∨ G.valueStart b = true → F.step G.value b = some (G.value, [[]])
  last : F.step G.value 13 = some (G.cr, [[G.writeValue]])
  empty : F.step G.colon 13 = some (G.emptyCr, [[G.startValue, G.writeValue]])
  lf : F.step G.cr 10 = some (G.lineStart, [[]])
  emptyLf : F.step G.emptyCr 10 = some (G.afterEmpty, [[]])
  blank : G.skip 32 = true
  stops : ∀ a ∈ [G.mark, G.startField, G.writeField, G.startValue, G.writeValue], stops a = false
  actMark : ∀ p s, act p G.mark s = some { s with mark := p }
  actStartField : ∀ p s, act p G.startField s = some { s with fieldStart := p }
  actWriteField : ∀ p s, act p G.writeField s = some { s with fieldLen := len s.fieldStart p }
  actStartValue : ∀ p s, act p G.startValue s = some { s with mark := p }
  actWriteValue : ∀ p s, act p G.writeValue s =
    onHttpField setHeader buffer s s.fieldStart s.fieldLen s.mark (len s.mark p)

theorem onHttpField_eq {setHeader : M → Bytes → Bytes → M} {s : ParserData M}
    {field flen value vlen : ℕ} {f v rest rest' : Bytes} (hf : buffer.drop field = f ++ rest)
    (hv : buffer.drop value = v ++ rest') (hne : f ≠ []) (hfield : flen = f.length)
    (hvalue : vlen = v.length) (hflen : f.length < 2 ^ 63) (hvlen : v.length < 2 ^ 63) :
    onHttpField setHeader buffer s field flen value vlen =
      some { s with message := setHeader s.message f v } := by
  rw [hfield, hvalue, onHttpField, if_neg fun h => hne (List.length_eq_zero_iff.mp h),
    stringAt_eq hf hflen, stringAt_eq hv hvlen]
  rfl

section Line

variable {G : FieldGrammar F} {setHeader : M → Bytes → Bytes → M}
variable (rules : FieldRules G stops act buffer setHeader)

include flags follows rules

/-- The name of a header, up to and including the colon. -/
theorem FieldRules.name_moves {f : F.Place} {m : M} {b : UInt8} {bs : Bytes} {p : ℕ}
    (hf : f = G.lineStart ∨ f = G.afterEmpty) (htoken : ∀ c ∈ b :: bs, isTokenChar c = true)
    (hlen : (b :: bs).length < 2 ^ 63) :
    Moves A F rel act stops p f (Holding m) (b :: bs ++ [58]) G.colon
      (fun s => Holding m s ∧ s.fieldStart = p ∧ s.fieldLen = (b :: bs).length) := by
  obtain ⟨opts, hstep, hopts⟩ := rules.start f hf b (htoken b List.mem_cons_self)
  have hfirst : Moves A F rel act stops p f (Holding m) [b] G.name
      (fun s => Holding m s ∧ s.fieldStart = p) :=
    follows.single flags.act flags.stops hstep fun as has => by
      have hmark := rules.stops G.mark (by simp)
      have hstart := rules.stops G.startField (by simp)
      -- the start of the field may come with a mark, which the value sets again
      rcases hopts as has with rfl | rfl
      · refine ⟨by simp [hstart], fun s hs => ⟨{ s with fieldStart := p }, ?_, hs, rfl⟩⟩
        rw [runActions_singleton, rules.actStartField]
      · refine ⟨by simp [hmark, hstart],
          fun s hs => ⟨{ s with mark := p, fieldStart := p }, ?_, hs, rfl⟩⟩
        rw [runActions, rules.actMark, Option.bind_some, runActions_singleton, rules.actStartField]
  have hname := follows.walk (p := p + 1)
    (P := fun s => Holding m s ∧ s.fieldStart = p) flags.act flags.stops
    (Fragment.walk_loop fun c hc => rules.name c (htoken c (List.mem_cons_of_mem _ hc)))
  have hcolon : Moves A F rel act stops (p + (b :: bs).length) G.name
      (fun s => Holding m s ∧ s.fieldStart = p) [58] G.colon
      (fun s => Holding m s ∧ s.fieldStart = p ∧ s.fieldLen = (b :: bs).length) :=
    follows.single flags.act flags.stops rules.colon fun as has => by
      obtain rfl := List.mem_singleton.mp has
      have hwrite := rules.stops G.writeField (by simp)
      refine ⟨by simp [hwrite],
        fun s hs => ⟨{ s with fieldLen := len s.fieldStart (p + (b :: bs).length) }, ?_,
          ⟨hs.1.1, hs.1.2⟩, hs.2, ?_⟩⟩
      · rw [runActions_singleton, rules.actWriteField]
      · show len s.fieldStart _ = _
        rw [hs.2, len_eq hlen]
  exact (hfirst.append rfl hname).append (by simp) hcolon

/-- The blanks behind the colon. -/
theorem FieldRules.skip_moves {P : ParserData M → Prop} (blanks : Bytes) {p : ℕ}
    (hblanks : ∀ b ∈ blanks, G.skip b = true)
    (hP : ∀ s p, P s → P { s with mark := p }) :
    Moves A F rel act stops p G.colon P blanks G.colon P := by
  have hstart := rules.stops G.startValue (by simp)
  refine follows.loop flags.act flags.stops
    (fun b hb => rules.skip b (hblanks b hb)) (by simp [hstart]) fun p s hs => ?_
  exact ⟨_, by rw [runActions_singleton, rules.actStartValue], hP s p hs⟩

/-- The value of a header behind the blanks, and the end of the line. -/
theorem FieldRules.value_moves {m : M} {name v rest rest' : Bytes} {p fieldStart : ℕ}
    (hname : buffer.drop fieldStart = name ++ rest) (hne : name ≠ [])
    (hvalue : buffer.drop p = v ++ rest') (hnlen : name.length < 2 ^ 63)
    (hvlen : v.length < 2 ^ 63) (hfirst : ∀ b ∈ v.head?, G.valueStart b = true)
    (hchars : ∀ b ∈ v, G.skip b = true ∨ G.valueStart b = true) :
    Moves A F rel act stops p G.colon
      (fun s => Holding m s ∧ s.fieldStart = fieldStart ∧ s.fieldLen = name.length) (v ++ crlf)
      (if v = [] then G.afterEmpty else G.lineStart) (Holding (setHeader m name v)) := by
  have hstart := rules.stops G.startValue (by simp)
  have hwrite := rules.stops G.writeValue (by simp)
  -- what the callback does once the value is marked at `p`
  have hreport (s : ParserData M) (hs : Holding m s ∧ s.fieldStart = fieldStart ∧
      s.fieldLen = name.length) (hmark : s.mark = p) : ∃ s', act (p + v.length) G.writeValue s =
        some s' ∧ Holding (setHeader m name v) s' := by
    obtain ⟨⟨rfl, herror⟩, hfield, hflen⟩ := hs
    refine ⟨{ s with message := setHeader s.message name v }, ?_, rfl, herror⟩
    rw [rules.actWriteValue]
    refine onHttpField_eq (hfield ▸ hname) (hmark ▸ hvalue) hne hflen ?_ hnlen hvlen
    rw [hmark, len_eq hvlen]
  cases v with
  | nil =>
    have hempty : Moves A F rel act stops p G.colon
        (fun s => Holding m s ∧ s.fieldStart = fieldStart ∧ s.fieldLen = name.length) [13] G.emptyCr
        (Holding (setHeader m name [])) :=
      follows.single flags.act flags.stops rules.empty fun as has => by
        obtain rfl := List.mem_singleton.mp has
        refine ⟨by simp [hstart, hwrite], fun s hs => ?_⟩
        obtain ⟨s', hs', hm⟩ := hreport { s with mark := p } hs rfl
        refine ⟨s', ?_, hm⟩
        rw [runActions, rules.actStartValue, Option.bind_some, runActions_singleton]
        exact hs'
    rw [if_pos rfl]
    exact hempty.append rfl (follows.walk flags.act flags.stops
      (Fragment.walk_cons_eq_some.mpr ⟨_, rules.emptyLf, rfl⟩))
  | cons c cs =>
    have hc : Moves A F rel act stops p G.colon
        (fun s => Holding m s ∧ s.fieldStart = fieldStart ∧ s.fieldLen = name.length) [c] G.value
        (fun s => (Holding m s ∧ s.fieldStart = fieldStart ∧ s.fieldLen = name.length) ∧
          s.mark = p) :=
      follows.single flags.act flags.stops (rules.value c (hfirst c rfl)) fun as has => by
        obtain rfl := List.mem_singleton.mp has
        exact ⟨by simp [hstart], fun s hs =>
          ⟨{ s with mark := p }, by rw [runActions_singleton, rules.actStartValue], hs, rfl⟩⟩
    have hmore := follows.walk (p := p + 1)
      (P := fun s => (Holding m s ∧ s.fieldStart = fieldStart ∧ s.fieldLen = name.length) ∧
        s.mark = p) flags.act flags.stops
      (Fragment.walk_loop fun b hb => rules.more b (hchars b (List.mem_cons_of_mem _ hb)))
    have hlast : Moves A F rel act stops (p + (c :: cs).length) G.value
        (fun s => (Holding m s ∧ s.fieldStart = fieldStart ∧ s.fieldLen = name.length) ∧
          s.mark = p) [13] G.cr (Holding (setHeader m name (c :: cs))) :=
      follows.single flags.act flags.stops rules.last fun as has => by
        obtain rfl := List.mem_singleton.mp has
        refine ⟨by simp [hwrite], fun s hs => ?_⟩
        rw [runActions_singleton]
        exact hreport s hs.1 hs.2
    have hlf : Moves A F rel act stops (p + (c :: cs).length + 1) G.cr
        (Holding (setHeader m name (c :: cs))) [10] G.lineStart
        (Holding (setHeader m name (c :: cs))) :=
      follows.walk flags.act flags.stops (Fragment.walk_cons_eq_some.mpr ⟨_, rules.lf, rfl⟩)
    rw [if_neg (List.cons_ne_nil c cs)]
    exact (hc.append rfl hmore).append (by simp) (hlast.append rfl hlf)

/-- The place behind a line with the value `v`. -/
def FieldGrammar.afterLine (G : FieldGrammar F) (v : Bytes) : F.Place :=
  if v.dropWhile G.skip = [] then G.afterEmpty else G.lineStart

/-- One header line.  The blanks in front of the value are lost. -/
theorem FieldRules.reads_line {f : F.Place} {m : M} {name v : Bytes}
    (hlen : name.length + v.length < 2 ^ 63) (hf : f = G.lineStart ∨ f = G.afterEmpty)
    (hne : name ≠ []) (htoken : ∀ b ∈ name, isTokenChar b = true)
    (hchars : ∀ b ∈ v, G.skip b = true ∨ G.valueStart b = true) :
    Reads A F rel act stops buffer f m (headerLine name v) (G.afterLine v)
      (setHeader m name (v.dropWhile G.skip)) := by
  intro p rest hdrop
  obtain ⟨b, bs, rfl⟩ := List.exists_cons_of_ne_nil hne
  have hsplit : headerLine (b :: bs) v =
      b :: bs ++ [58] ++ ((32 :: v.takeWhile G.skip) ++ (v.dropWhile G.skip ++ crlf)) := by
    have hv : v = v.takeWhile G.skip ++ v.dropWhile G.skip :=
      (List.takeWhile_append_dropWhile ..).symm
    conv_lhs => rw [headerLine, hv]
    simp only [List.append_assoc, List.cons_append, List.nil_append]
    rfl
  have hvalueLen : (v.dropWhile G.skip).length ≤ v.length := (List.dropWhile_sublist _).length_le
  rw [hsplit] at hdrop ⊢
  have hname := rules.name_moves flags follows (m := m) (p := p) hf htoken
    (by omega)
  have hskip := rules.skip_moves flags follows (32 :: v.takeWhile G.skip)
    (p := p + (b :: bs ++ [58]).length)
    (P := fun s => Holding m s ∧ s.fieldStart = p ∧ s.fieldLen = (b :: bs).length)
    (fun c hc => by
      rcases List.mem_cons.mp hc with rfl | hc
      · exact rules.blank
      · exact List.all_eq_true.mp List.all_takeWhile c hc)
    (fun s p' hs => hs)
  have hdropName : buffer.drop p = b :: bs ++ ([58] ++ ((32 :: v.takeWhile G.skip) ++
      (v.dropWhile G.skip ++ crlf)) ++ rest) := by
    rw [hdrop]
    simp only [List.append_assoc]
  have hdropValue : buffer.drop (p + (b :: bs ++ [58]).length + (32 :: v.takeWhile G.skip).length) =
      v.dropWhile G.skip ++ (crlf ++ rest) := by
    rw [← List.drop_drop, ← List.drop_drop, hdrop, List.append_assoc, List.drop_left,
      List.append_assoc, List.drop_left, List.append_assoc]
  have hvalue := rules.value_moves flags follows (m := m) (p := _) hdropName hne hdropValue
    (by omega) (by omega)
    (fun c hc => by
      -- the first byte that is not skipped begins the value
      have hnot := List.head?_dropWhile_not G.skip v
      rw [Option.mem_def] at hc
      rw [hc] at hnot
      have hmem := List.dropWhile_subset _ (List.mem_of_head? hc)
      rcases hchars c hmem with h | h
      · exact absurd (h.symm.trans hnot) (by decide)
      · exact h)
    (fun c hc => hchars c (List.dropWhile_subset _ hc))
  exact hname.append rfl (hskip.append rfl hvalue)

/-- The place behind some header lines. -/
def FieldGrammar.afterLines (G : FieldGrammar F) (f : F.Place) (lines : List (Bytes × Bytes)) :
    F.Place :=
  lines.foldl (fun _ e => G.afterLine e.2) f

omit flags follows rules in
theorem FieldGrammar.afterLine_or (G : FieldGrammar F) (v : Bytes) :
    G.afterLine v = G.lineStart ∨ G.afterLine v = G.afterEmpty := by
  unfold FieldGrammar.afterLine
  split_ifs
  · exact .inr rfl
  · exact .inl rfl

/-- Header lines, one after another. -/
theorem FieldRules.reads_lines (lines : List (Bytes × Bytes)) {f : F.Place} {m : M}
    (hlen : ∀ e ∈ lines, e.1.length + e.2.length < 2 ^ 63)
    (hf : f = G.lineStart ∨ f = G.afterEmpty)
    (hnames : ∀ e ∈ lines, e.1 ≠ [] ∧ ∀ b ∈ e.1, isTokenChar b = true)
    (hchars : ∀ e ∈ lines, ∀ b ∈ e.2, G.skip b = true ∨ G.valueStart b = true) :
    Reads A F rel act stops buffer f m (lines.flatMap fun e => headerLine e.1 e.2)
      (G.afterLines f lines)
      (lines.foldl (fun m e => setHeader m e.1 (e.2.dropWhile G.skip)) m) := by
  induction lines generalizing f m with
  | nil => exact .nil
  | cons e lines ih =>
    obtain ⟨hne, htoken⟩ := hnames e List.mem_cons_self
    have hline := rules.reads_line flags follows (m := m)
      (hlen e List.mem_cons_self) hf hne htoken
      (hchars e List.mem_cons_self)
    rw [List.flatMap_cons]
    exact hline.append (ih (fun e' he' => hlen e' (List.mem_cons_of_mem _ he')) (G.afterLine_or e.2)
      (fun e' he' => hnames e' (List.mem_cons_of_mem _ he'))
      (fun e' he' => hchars e' (List.mem_cons_of_mem _ he')))

end Line

/-! ### The printed header lines -/

/-- The `lines` are headers of the message, or one of the two that `dump` adds: the connection
header, and a header with the length of the body. -/
def Printed (entries : List (Bytes × Bytes)) (close : Bool) (lengthName : Bytes) (length : ℕ)
    (lines : List (Bytes × Bytes)) : Prop :=
  ∀ e ∈ lines, e ∈ entries ∨ e = (bytes "connection", connectionValue close) ∨
    e = (lengthName, decimal length)

theorem isValueChar_of_mem_decimal {n : ℕ} {b : UInt8} (hb : b ∈ decimal n) :
    isValueChar b = true := by
  have hdigit := isDigit_of_mem_decimal hb
  grind [isDigit, isValueChar]

theorem isValueChar_of_mem_connectionValue {close : Bool} :
    ∀ b ∈ connectionValue close, isValueChar b = true := by
  cases close <;> decide

section Printed

variable {entries lines : List (Bytes × Bytes)} {close : Bool} {lengthName : Bytes} {length : ℕ}
  {e : Bytes × Bytes}

theorem Printed.name (h : Printed entries close lengthName length lines) {p : Bytes → Prop}
    (hentries : ∀ e ∈ entries, p e.1) (hconnection : p (bytes "connection"))
    (hlength : p lengthName) (he : e ∈ lines) : p e.1 := by
  rcases h e he with he | rfl | rfl
  · exact hentries e he
  · exact hconnection
  · exact hlength

/-- The values that `dump` adds have neither blanks nor control characters. -/
theorem Printed.value (h : Printed entries close lengthName length lines) {p : Bytes → Prop}
    (hentries : ∀ e ∈ entries, p e.2) (hvisible : ∀ v, (∀ b ∈ v, isValueChar b = true) → p v)
    (he : e ∈ lines) : p e.2 := by
  rcases h e he with he | rfl | rfl
  · exact hentries e he
  · exact hvisible _ isValueChar_of_mem_connectionValue
  · exact hvisible _ fun b hb => isValueChar_of_mem_decimal hb

/-- A line is no longer than all of them. -/
theorem length_of_mem_lines (he : e ∈ lines) :
    e.1.length + e.2.length ≤ (lines.flatMap fun e => headerLine e.1 e.2).length := by
  have hline : (headerLine e.1 e.2).length ≤ (lines.flatMap fun e => headerLine e.1 e.2).length :=
    (List.sublist_flatten_of_mem
      (List.mem_map_of_mem (f := fun e => headerLine e.1 e.2) he)).length_le
  refine le_trans ?_ hline
  simp only [headerLine, List.length_append]
  omega

end Printed

/-! ### The version -/

/-- How both messages print a version that the parsers know. -/
theorem printedVersion_eq {v : UInt8} (hv : v = 0x10 ∨ v = 0x11) (rest : Bytes) :
    ∃ d, (d = 48 ∧ v = 0x10 ∨ d = 49 ∧ v = 0x11) ∧
      bytes "HTTP/" ++ decimal (v >>> 4).toNat ++ bytes "." ++ decimal (v &&& 0x0F).toNat ++ rest =
        72 :: (bytes "TTP/1." ++ [d]) ++ rest := by
  rcases hv with rfl | rfl
  · exact ⟨48, .inl ⟨rfl, rfl⟩, congrArg (· ++ rest) (by decide)⟩
  · exact ⟨49, .inr ⟨rfl, rfl⟩, congrArg (· ++ rest) (by decide)⟩

/-- The version callbacks compare as many bytes as a printed version has. -/
theorem strncmpEq_version {text rest : Bytes} {d : UInt8}
    (h : text = 72 :: (bytes "TTP/1." ++ [d]) ++ rest) (t : Bytes) :
    strncmpEq text t 8 = strncmpEq (72 :: (bytes "TTP/1." ++ [d])) t 8 := by
  have hlen : (72 :: (bytes "TTP/1." ++ [d])).length = 8 := rfl
  rw [← strncmpEq_take, h, ← hlen, List.take_left]

end Muhui.Http
