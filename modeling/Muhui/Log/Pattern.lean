/-
  `LogFormatter::init` (`log.cc`): how a pattern becomes a list of items.

  A pattern is made of literal text, of `%%` for a percent sign, and of directives.  `scan` reads it
  from left to right, with the literal text it has not put into the list yet; `skip` counts the
  characters that the index is moved over after a directive.

  `output_scan_directive` and `scan_literal` say that the scanner is at the beginning of the next
  part after each part but one: of `%%` it passes over the first character only, and takes the
  second one for the beginning of a directive (`not_follows_of_percent`).
-/
import Mathlib.Data.List.Basic

namespace Muhui.Log.LogFormatter

/-! ### The code -/

/-- The classes of items that a directive stands for. -/
inductive FormatItem
  | message
  | level
  | elapse
  | name
  | threadId
  | newLine
  | dateTime
  | filename
  | line
  | tab
  | fiberId
  | threadName
  deriving DecidableEq

/-- `s_format_items` -/
def s_format_items : List (List Char × FormatItem) :=
  [(['m'], .message), (['p'], .level), (['r'], .elapse), (['c'], .name), (['t'], .threadId),
    (['n'], .newLine), (['d'], .dateTime), (['f'], .filename), (['l'], .line), (['T'], .tab),
    (['F'], .fiberId), (['N'], .threadName)]

/-- `s_format_items.find(str)` -/
def findItem (str : List Char) : Option FormatItem :=
  (s_format_items.find? fun e => e.1 = str).map Prod.snd

/-- An element of `m_items`: a `StringFormatItem`, or an item with its format. -/
inductive Item
  | string (text : List Char)
  | format (item : FormatItem) (fmt : List Char)
  deriving DecidableEq

/-- An element of `vec`, of type 0 or 1. -/
inductive Piece
  | text (str : List Char)
  | directive (str fmt : List Char)
  deriving DecidableEq

/-- The inner loop from `{` on; `n` characters have been read.  It returns the name, the format and
the number of characters, or `none` when there is no `}`. -/
def scanFormat (str fmt : List Char) (n : ℕ) : List Char → Option (List Char × List Char × ℕ)
  | [] => none
  | c :: t => if c = '}' then some (str, fmt, n + 1) else scanFormat str (fmt ++ [c]) (n + 1) t

/-- The inner loop before `{`. -/
def scanName (str : List Char) (n : ℕ) : List Char → Option (List Char × List Char × ℕ)
  | [] => some (str, [], n)
  | c :: t =>
    if c.isAlpha = false ∧ c ≠ '{' ∧ c ≠ '}' then some (str, [], n)
    else if c = '{' then scanFormat str [] (n + 1) t
    else scanName (str ++ [c]) (n + 1) t

/-- The literal text that is put into the list. -/
def flush (nstr : List Char) : List Piece := if nstr.isEmpty then [] else [.text nstr]

/-- The loop over the pattern: the list, and whether a format was not closed. -/
def scan : ℕ → List Char → List Char → List Piece × Bool
  | _, nstr, [] => (flush nstr, false)
  | skip + 1, nstr, _ :: t => scan skip nstr t
  | 0, nstr, c :: t =>
    if c ≠ '%' then scan 0 (nstr ++ [c]) t
    else if t.head? = some '%' then scan 0 (nstr ++ ['%']) t
    else
      match scanName [] 0 t with
      | some (str, fmt, n) =>
        let r := scan n [] t
        (flush nstr ++ .directive str fmt :: r.1, r.2)
      | none => (.text "<<pattern_error>>".toList :: (scan 0 nstr t).1, true)

/-- The item of an element of `vec`, and whether it is an error. -/
def Piece.item : Piece → Item × Bool
  | .text str => (.string str, false)
  | .directive str fmt =>
    match findItem str with
    | some item => (.format item fmt, false)
    | none => (.string ("<<error_format %".toList ++ str ++ ">>".toList), true)

/-- `init`: `m_items` and `m_error`. -/
def init (m_pattern : List Char) : List Item × Bool :=
  let r := scan 0 [] m_pattern
  (r.1.map fun p => p.item.1, r.2 || r.1.any fun p => p.item.2)

/-! ### The grammar -/

/-- A part of a pattern. -/
inductive Segment
  | literal (text : List Char)
  | percent
  | directive (name : List Char) (body : Option (List Char))
  deriving DecidableEq

def Segment.render : Segment → List Char
  | literal text => text
  | percent => ['%', '%']
  | directive name none => '%' :: name
  | directive name (some body) => '%' :: (name ++ '{' :: (body ++ ['}']))

/-- The pattern of the parts. -/
def render (segs : List Segment) : List Char := segs.flatMap Segment.render

/-- A part that may stand before the text `t`. -/
def Segment.Fits (t : List Char) : Segment → Prop
  | literal text => '%' ∉ text
  | percent => True
  | directive name none =>
    (findItem name).isSome ∧ ∀ c ∈ t.head?, c.isAlpha = false ∧ c ≠ '{' ∧ c ≠ '}'
  | directive name (some body) => (findItem name).isSome ∧ '}' ∉ body

def Wellformed : List Segment → Prop
  | [] => True
  | seg :: segs => seg.Fits (render segs) ∧ Wellformed segs

/-- What a formatter prints: a character of the pattern, or what an item stands for. -/
inductive Token
  | char (c : Char)
  | format (item : FormatItem) (fmt : List Char)
  deriving DecidableEq

def Item.tokens : Item → List Token
  | string text => text.map .char
  | format item fmt => [.format item fmt]

def Segment.tokens : Segment → List Token
  | literal text => text.map .char
  | percent => [.char '%']
  | directive name body => (findItem name).toList.map fun item => .format item (body.getD [])

/-- There is no error, and the items are, in order, the literal text, with a percent sign for each
`%%`, and the items of the directives. -/
def Follows (segs : List Segment) : Prop :=
  (init (render segs)).2 = false ∧
    (init (render segs)).1.flatMap Item.tokens = segs.flatMap Segment.tokens

/-! ### Directives -/

variable {name body nstr t u : List Char} {c : Char} {segs : List Segment}

theorem isAlpha_of_findItem (h : (findItem name).isSome) :
    name ≠ [] ∧ ∀ c ∈ name, c.isAlpha = true := by
  have htable : s_format_items.all (fun e => !e.1.isEmpty && e.1.all Char.isAlpha) = true := by
    decide
  obtain ⟨item, hitem⟩ := Option.isSome_iff_exists.mp h
  obtain ⟨e, he, -⟩ := Option.map_eq_some_iff.mp hitem
  have hfound := List.find?_some he
  obtain rfl : e.1 = name := of_decide_eq_true hfound
  have hentry := List.all_eq_true.mp htable e (List.mem_of_find?_eq_some he)
  rw [Bool.and_eq_true, List.all_eq_true] at hentry
  refine ⟨fun hempty => ?_, hentry.2⟩
  rw [hempty] at hentry
  exact absurd hentry.1 Bool.false_ne_true

theorem scanName_append (hname : ∀ c ∈ name, c.isAlpha = true) (str : List Char) (n : ℕ) :
    scanName str n (name ++ t) = scanName (str ++ name) (n + name.length) t := by
  induction name generalizing str n with
  | nil => rw [List.append_nil, List.nil_append, List.length_nil, Nat.add_zero]
  | cons c name ih =>
    rw [List.forall_mem_cons] at hname
    have hbrace : c ≠ '{' := by
      rintro rfl
      exact absurd hname.1 (by decide)
    rw [List.cons_append, scanName, if_neg (by simp [hname.1]), if_neg hbrace, ih hname.2]
    simp [Nat.add_comm, Nat.add_left_comm]

theorem scanFormat_append (hbody : '}' ∉ body) (str fmt : List Char) (n : ℕ) :
    scanFormat str fmt n (body ++ '}' :: t) = some (str, fmt ++ body, n + body.length + 1) := by
  induction body generalizing fmt n with
  | nil => rw [List.nil_append, scanFormat, if_pos rfl, List.append_nil]; rfl
  | cons c body ih =>
    rw [List.mem_cons, not_or] at hbody
    rw [List.cons_append, scanFormat, if_neg (Ne.symm hbody.1), ih hbody.2]
    simp [Nat.add_comm, Nat.add_left_comm]

theorem scan_skip (nstr u t : List Char) : scan u.length nstr (u ++ t) = scan 0 nstr t := by
  induction u with
  | nil => rfl
  | cons c u ih => rw [List.length_cons, List.cons_append, scan, ih]

/-- A directive that takes the text `u`. -/
theorem scan_percent {str fmt : List Char} (hhead : (u ++ t).head? ≠ some '%')
    (hname : scanName [] 0 (u ++ t) = some (str, fmt, u.length)) :
    scan 0 nstr ('%' :: (u ++ t)) =
      (flush nstr ++ .directive str fmt :: (scan 0 [] t).1, (scan 0 [] t).2) := by
  rw [scan, if_neg (not_not_intro rfl), if_neg hhead, hname]
  dsimp only
  rw [scan_skip]

theorem scan_literal (hu : '%' ∉ u) (nstr t : List Char) :
    scan 0 nstr (u ++ t) = scan 0 (nstr ++ u) t := by
  induction u generalizing nstr with
  | nil => rw [List.nil_append, List.append_nil]
  | cons c u ih =>
    rw [List.mem_cons, not_or] at hu
    rw [List.cons_append, scan, if_pos (Ne.symm hu.1), ih hu.2, List.append_assoc,
      List.singleton_append]

/-! ### What is printed -/

/-- Whether there is an error, and what the items of a list are. -/
def output (r : List Piece × Bool) : Bool × List Token :=
  (r.2 || r.1.any fun p => p.item.2, r.1.flatMap fun p => p.item.1.tokens)

theorem follows_iff_output :
    Follows segs ↔ output (scan 0 [] (render segs)) = (false, segs.flatMap Segment.tokens) := by
  unfold Follows init output
  rw [Prod.mk.injEq, List.flatMap_map]

theorem output_flush (nstr : List Char) (ps : List Piece) (err : Bool) :
    output (flush nstr ++ ps, err) =
      ((output (ps, err)).1, nstr.map Token.char ++ (output (ps, err)).2) := by
  unfold flush output
  cases nstr <;> simp [Piece.item, Item.tokens]

theorem output_directive {str fmt : List Char} {item : FormatItem}
    (hitem : findItem str = some item) (ps : List Piece) (err : Bool) :
    output (.directive str fmt :: ps, err) =
      ((output (ps, err)).1, .format item fmt :: (output (ps, err)).2) := by
  have hpiece : (Piece.directive str fmt).item = (.format item fmt, false) := by
    rw [Piece.item, hitem]
  unfold output
  rw [List.any_cons, List.flatMap_cons, hpiece]
  rfl

theorem isSome_findItem_of_fits {body : Option (List Char)}
    (hfits : (Segment.directive name body).Fits t) : (findItem name).isSome := by
  cases body with
  | none => exact hfits.1
  | some body => exact hfits.1

/-- The name of an item begins with a letter. -/
theorem exists_cons_of_findItem (h : (findItem name).isSome) :
    ∃ c rest, name = c :: rest ∧ c ≠ '%' := by
  obtain ⟨hne, halpha⟩ := isAlpha_of_findItem h
  obtain ⟨c, rest, rfl⟩ := List.exists_cons_of_ne_nil hne
  refine ⟨c, rest, rfl, ?_⟩
  rintro rfl
  exact absurd (halpha '%' List.mem_cons_self) (by decide)

/-- A directive, and where the scanner is behind it. -/
theorem output_scan_directive {body : Option (List Char)}
    (hfits : (Segment.directive name body).Fits t) :
    output (scan 0 nstr ((Segment.directive name body).render ++ t)) =
      ((output (scan 0 [] t)).1,
        nstr.map Token.char ++ (Segment.directive name body).tokens ++
          (output (scan 0 [] t)).2) := by
  have hsome := isSome_findItem_of_fits hfits
  obtain ⟨item, hitem⟩ := Option.isSome_iff_exists.mp hsome
  have halpha := (isAlpha_of_findItem hsome).2
  have hhead : ∀ rest, (name ++ rest).head? ≠ some '%' := by
    intro rest hpercent
    obtain ⟨c, name, rfl, hc⟩ := exists_cons_of_findItem hsome
    exact hc (Option.some.inj hpercent)
  have hscan : scan 0 nstr ((Segment.directive name body).render ++ t) =
      (flush nstr ++ .directive name (body.getD []) :: (scan 0 [] t).1, (scan 0 [] t).2) := by
    cases body with
    | none =>
      have hstop : scanName [] 0 (name ++ t) = some (name, [], name.length) := by
        rw [scanName_append halpha]
        cases t with
        | nil => simp [scanName]
        | cons c t =>
          have hc := hfits.2 c rfl
          rw [scanName, if_pos hc]
          simp
      exact scan_percent (hhead t) hstop
    | some body =>
      have hlist : (Segment.directive name (some body)).render ++ t =
          '%' :: ((name ++ '{' :: (body ++ ['}'])) ++ t) := rfl
      have hstop : scanName [] 0 ((name ++ '{' :: (body ++ ['}'])) ++ t) =
          some (name, body, (name ++ '{' :: (body ++ ['}'])).length) := by
        rw [List.append_assoc, scanName_append halpha, List.cons_append, scanName,
          if_neg (by decide), if_pos rfl, List.append_assoc, List.singleton_append,
          scanFormat_append hfits.2]
        simp
        omega
      rw [hlist]
      exact scan_percent (by rw [List.append_assoc]; exact hhead _) hstop
  have htokens : (Segment.directive name body).tokens = [.format item (body.getD [])] := by
    rw [Segment.tokens, hitem]
    rfl
  rw [hscan, output_flush, output_directive hitem, htokens, List.append_assoc]
  rfl

/-! ### Patterns without percent signs -/

/-- Behind parts that are not `%%` the scanner is where the next part begins. -/
theorem exists_output_of_not_mem {pre : List Segment} (hpre : .percent ∉ pre)
    (hwf : Wellformed (pre ++ segs)) (nstr : List Char) :
    ∃ nstr' ts, output (scan 0 nstr (render (pre ++ segs))) =
        ((output (scan 0 nstr' (render segs))).1, ts ++ (output (scan 0 nstr' (render segs))).2) ∧
      nstr.map Token.char ++ pre.flatMap Segment.tokens = ts ++ nstr'.map Token.char := by
  induction pre generalizing nstr with
  | nil => exact ⟨nstr, [], rfl, by simp⟩
  | cons seg pre ih =>
    rw [List.mem_cons, not_or] at hpre
    obtain ⟨hfits, hwf⟩ := hwf
    replace hfits : seg.Fits (render (pre ++ segs)) := hfits
    have hrender : render (seg :: pre ++ segs) = seg.render ++ render (pre ++ segs) := by
      rw [List.cons_append, render, List.flatMap_cons]
      rfl
    cases seg with
    | literal u =>
      obtain ⟨nstr', ts, hout, hts⟩ := ih hpre.2 hwf (nstr ++ u)
      refine ⟨nstr', ts, ?_, ?_⟩
      · rw [hrender, ← hout]
        exact congrArg output (scan_literal hfits nstr _)
      · rw [← hts, List.flatMap_cons, Segment.tokens, List.map_append, List.append_assoc]
    | percent => exact absurd rfl hpre.1
    | directive name body =>
      obtain ⟨nstr', ts, hout, hts⟩ := ih hpre.2 hwf []
      refine ⟨nstr', nstr.map Token.char ++ (Segment.directive name body).tokens ++ ts, ?_, ?_⟩
      · rw [hrender, output_scan_directive hfits, hout]
        simp only [List.append_assoc]
      · rw [List.map_nil, List.nil_append] at hts
        rw [List.flatMap_cons, hts, List.append_assoc, List.append_assoc]

/-! ### Patterns with percent signs -/

/-- What the scanner makes of a percent sign that is not before another one. -/
theorem error_or_format (ht : t.head? ≠ some '%') (nstr : List Char) :
    (output (scan 0 nstr ('%' :: t))).1 = true ∨
      ∃ item fmt ts, (output (scan 0 nstr ('%' :: t))).2 =
        nstr.map Token.char ++ .format item fmt :: ts := by
  rw [scan, if_neg (not_not_intro rfl), if_neg ht]
  cases scanName [] 0 t with
  | none => exact Or.inl rfl
  | some r =>
    obtain ⟨str, fmt, n⟩ := r
    dsimp only
    rw [output_flush]
    cases hitem : findItem str with
    | none =>
      left
      simp [output, Piece.item, hitem]
    | some item =>
      right
      rw [output_directive hitem]
      exact ⟨item, fmt, _, rfl⟩

/-- A directive in a place where the text `es` should stand, with `k` percent signs before it. -/
theorem output_ne_of_format {es : List Token} {k : ℕ} (ht : t.head? ≠ some '%')
    (hes : ∀ e ∈ es.head?, e ≠ .char '%' ∧ (k = 0 → ∃ c, e = .char c)) (m : List Char) :
    output (scan 0 (m ++ List.replicate k '%') ('%' :: t)) ≠ (false, m.map Token.char ++ es) := by
  intro heq
  rcases error_or_format ht (m ++ List.replicate k '%') with herr | ⟨item, fmt, ts, hts⟩
  · rw [heq] at herr
    cases herr
  · rw [heq, List.map_append, List.append_assoc] at hts
    have htail := List.append_cancel_left hts
    cases es with
    | nil => simp at htail
    | cons e es =>
      obtain ⟨hpercent, hchar⟩ := hes e rfl
      cases k with
      | zero =>
        obtain ⟨c, rfl⟩ := hchar rfl
        cases htail
      | succ k => exact hpercent (List.cons.inj htail).1

theorem scan_double (nstr t : List Char) :
    scan 0 nstr ('%' :: '%' :: t) = scan 0 (nstr ++ ['%']) ('%' :: t) := by
  conv_lhs => rw [scan]
  rw [if_neg (not_not_intro rfl), if_pos List.head?_cons]

/-- The second character of `%%` begins a directive for the scanner, whatever comes behind it, and
by then it has read a percent sign too many for every other `%%` that comes before. -/
theorem output_ne_of_percent {post : List Segment} (hwf : Wellformed post) (m : List Char)
    (k : ℕ) :
    output (scan 0 (m ++ List.replicate k '%') ('%' :: render post)) ≠
      (false, m.map Token.char ++ post.flatMap Segment.tokens) := by
  induction post generalizing m k with
  | nil => exact output_ne_of_format (by simp [render]) (by simp) m
  | cons seg post ih =>
    obtain ⟨hfits, hwf⟩ := hwf
    have hrender : render (seg :: post) = seg.render ++ render post := List.flatMap_cons
    rw [hrender, List.flatMap_cons]
    cases seg with
    | literal u =>
      cases u with
      | nil => exact ih hwf m k
      | cons c u =>
        have hc : c ≠ '%' := fun hc => hfits (hc ▸ List.mem_cons_self)
        have hhead : (c :: (u ++ render post)).head? ≠ some '%' :=
          fun hhead => hc (Option.some.inj hhead)
        refine output_ne_of_format hhead ?_ m
        rintro e he
        obtain rfl := Option.some.inj he
        exact ⟨fun hchar => hc (Token.char.inj hchar), fun _ => ⟨c, rfl⟩⟩
    | percent =>
      have hnext := ih hwf (m ++ ['%']) (k + 1)
      have hlist : m ++ List.replicate k '%' ++ ['%'] ++ ['%'] =
          m ++ ['%'] ++ List.replicate (k + 1) '%' := by
        rw [List.append_assoc m, ← List.replicate_succ', List.append_assoc m,
          ← List.replicate_succ', List.append_assoc m ['%'], List.singleton_append,
          ← List.replicate_succ]
      show output (scan 0 _ ('%' :: '%' :: '%' :: render post)) ≠ _
      rw [scan_double, scan_double, hlist]
      simpa [Segment.tokens] using hnext
    | directive name body =>
      have hsome := isSome_findItem_of_fits hfits
      obtain ⟨item, hitem⟩ := Option.isSome_iff_exists.mp hsome
      obtain ⟨c, name, rfl, hc⟩ := exists_cons_of_findItem hsome
      obtain ⟨rest, hrest⟩ : ∃ rest,
          (Segment.directive (c :: name) body).render ++ render post = '%' :: c :: rest := by
        cases body with
        | none => exact ⟨_, rfl⟩
        | some body => exact ⟨_, rfl⟩
      rw [hrest, scan_double, List.append_assoc, ← List.replicate_succ']
      have hhead : (c :: rest).head? ≠ some '%' := fun hhead => hc (Option.some.inj hhead)
      refine output_ne_of_format hhead ?_ m
      rw [Segment.tokens, hitem]
      rintro e he
      obtain rfl := Option.some.inj he
      exact ⟨nofun, nofun⟩

theorem Wellformed.append_right {pre : List Segment} (h : Wellformed (pre ++ segs)) :
    Wellformed segs := by
  induction pre with
  | nil => exact h
  | cons seg pre ih => exact ih h.2

/-- **When a pattern is parsed as its parts say**: when it has no `%%`. -/
theorem follows_iff (hwf : Wellformed segs) : Follows segs ↔ Segment.percent ∉ segs := by
  rw [follows_iff_output]
  constructor
  · intro hfollows hmem
    obtain ⟨pre, post, rfl, hpre⟩ := List.eq_append_cons_of_mem hmem
    obtain ⟨nstr, ts, hout, hts⟩ := exists_output_of_not_mem hpre hwf []
    refine output_ne_of_percent hwf.append_right.2 (nstr ++ ['%']) 0 ?_
    have hrender : render (.percent :: post) = '%' :: '%' :: render post := List.flatMap_cons
    rw [hout, hrender, scan_double, List.flatMap_append, List.flatMap_cons] at hfollows
    obtain ⟨herr, htokens⟩ := Prod.mk.inj hfollows
    rw [List.map_nil, List.nil_append] at hts
    rw [hts, List.append_assoc] at htokens
    refine Prod.ext ?_ ?_
    · simpa using herr
    · simpa [Segment.tokens] using List.append_cancel_left htokens
  · intro hpre
    rw [← List.append_nil segs] at hwf
    obtain ⟨nstr, ts, hout, hts⟩ := exists_output_of_not_mem hpre hwf []
    rw [List.append_nil] at hout
    have hend : output (scan 0 nstr (render [])) = (false, nstr.map Token.char) := by
      have hflush := output_flush nstr [] false
      rw [List.append_nil] at hflush
      rw [render, List.flatMap_nil, scan, hflush]
      simp [output]
    rw [hout, hend, ← hts]
    rfl

/-- A pattern with literal text, bare directives and one with a format. -/
theorem follows_iff_date :
    let segs : List Segment := [.directive ['d'] (some "%H:%M".toList), .directive ['T'] none,
      .literal "[".toList, .directive ['p'] none, .literal "] ".toList, .directive ['m'] none]
    render segs = "%d{%H:%M}%T[%p] %m".toList ∧ (Follows segs ↔ Segment.percent ∉ segs) := by
  refine ⟨by decide, follows_iff ?_⟩
  simp [Wellformed, Segment.Fits, render, Segment.render, findItem, s_format_items]

/-- In `100%% %m` the second percent sign is the beginning of a directive without a name. -/
theorem not_follows_of_percent :
    let segs : List Segment :=
      [.literal "100".toList, .percent, .literal " ".toList, .directive ['m'] none]
    render segs = "100%% %m".toList ∧ Wellformed segs ∧ (init (render segs)).2 = true ∧
      ¬Follows segs := by
  refine ⟨by decide, ?_, by decide, fun h => ?_⟩
  · simp [Wellformed, Segment.Fits, render, findItem, s_format_items]
  · exact absurd h.1 (by decide)

end Muhui.Log.LogFormatter
