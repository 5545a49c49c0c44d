/-
  `StringUtil::UrlEncode` and `StringUtil::UrlDecode` (`util.cc`).

  Both make their buffer at the first byte that changes and return the argument when there is none.
  What the loops compute apart from that is a `piece` for each byte and `decoded`, and decoding
  undoes what each byte is encoded as, whatever comes behind it (`decoded_piece`).
-/
import Muhui.Text.Hex
import Mathlib.Data.List.Forall2

namespace Muhui.StringUtil

open Hex (IsHex)

/-! ### Tables -/

def uri_chars : List UInt8 :=
  [0, 0, 0, 0, 0, 0, 0, 0, 0, 0, 0, 0, 0, 0, 0, 0,
   0, 0, 0, 0, 0, 0, 0, 0, 0, 0, 0, 0, 0, 0, 0, 0,
   0, 0, 0, 0, 0, 0, 0, 0, 0, 0, 0, 0, 0, 1, 1, 0,
   1, 1, 1, 1, 1, 1, 1, 1, 1, 1, 0, 0, 0, 1, 0, 0,
   0, 1, 1, 1, 1, 1, 1, 1, 1, 1, 1, 1, 1, 1, 1, 1,
   1, 1, 1, 1, 1, 1, 1, 1, 1, 1, 1, 0, 0, 0, 0, 1,
   0, 1, 1, 1, 1, 1, 1, 1, 1, 1, 1, 1, 1, 1, 1, 1,
   1, 1, 1, 1, 1, 1, 1, 1, 1, 1, 1, 0, 0, 0, 1, 0,
   0, 0, 0, 0, 0, 0, 0, 0, 0, 0, 0, 0, 0, 0, 0, 0,
   0, 0, 0, 0, 0, 0, 0, 0, 0, 0, 0, 0, 0, 0, 0, 0,
   0, 0, 0, 0, 0, 0, 0, 0, 0, 0, 0, 0, 0, 0, 0, 0,
   0, 0, 0, 0, 0, 0, 0, 0, 0, 0, 0, 0, 0, 0, 0, 0,
   0, 0, 0, 0, 0, 0, 0, 0, 0, 0, 0, 0, 0, 0, 0, 0,
   0, 0, 0, 0, 0, 0, 0, 0, 0, 0, 0, 0, 0, 0, 0, 0,
   0, 0, 0, 0, 0, 0, 0, 0, 0, 0, 0, 0, 0, 0, 0, 0,
   0, 0, 0, 0, 0, 0, 0, 0, 0, 0, 0, 0, 0, 0, 0, 0]

def xdigit_chars : List UInt8 :=
  [0, 0, 0, 0, 0, 0, 0, 0, 0, 0, 0, 0, 0, 0, 0, 0,
   0, 0, 0, 0, 0, 0, 0, 0, 0, 0, 0, 0, 0, 0, 0, 0,
   0, 0, 0, 0, 0, 0, 0, 0, 0, 0, 0, 0, 0, 0, 0, 0,
   0, 1, 2, 3, 4, 5, 6, 7, 8, 9, 0, 0, 0, 0, 0, 0,
   0, 10, 11, 12, 13, 14, 15, 0, 0, 0, 0, 0, 0, 0, 0, 0,
   0, 0, 0, 0, 0, 0, 0, 0, 0, 0, 0, 0, 0, 0, 0, 0,
   0, 10, 11, 12, 13, 14, 15, 0, 0, 0, 0, 0, 0, 0, 0, 0,
   0, 0, 0, 0, 0, 0, 0, 0, 0, 0, 0, 0, 0, 0, 0, 0,
   0, 0, 0, 0, 0, 0, 0, 0, 0, 0, 0, 0, 0, 0, 0, 0,
   0, 0, 0, 0, 0, 0, 0, 0, 0, 0, 0, 0, 0, 0, 0, 0,
   0, 0, 0, 0, 0, 0, 0, 0, 0, 0, 0, 0, 0, 0, 0, 0,
   0, 0, 0, 0, 0, 0, 0, 0, 0, 0, 0, 0, 0, 0, 0, 0,
   0, 0, 0, 0, 0, 0, 0, 0, 0, 0, 0, 0, 0, 0, 0, 0,
   0, 0, 0, 0, 0, 0, 0, 0, 0, 0, 0, 0, 0, 0, 0, 0,
   0, 0, 0, 0, 0, 0, 0, 0, 0, 0, 0, 0, 0, 0, 0, 0,
   0, 0, 0, 0, 0, 0, 0, 0, 0, 0, 0, 0, 0, 0, 0, 0]

/-- `CHAR_IS_UNRESERVED` -/
def unreserved (c : UInt8) : Bool := uri_chars.getD c.toNat 0 ≠ 0

def xdigit (c : UInt8) : UInt8 := xdigit_chars.getD c.toNat 0

/-- `"0123456789ABCDEF"` -/
def hexdigits : List UInt8 := [48, 49, 50, 51, 52, 53, 54, 55, 56, 57, 65, 66, 67, 68, 69, 70]

def hexdigit (n : UInt8) : UInt8 := hexdigits.getD n.toNat 0

/-! ### The code -/

/-- What is appended for a byte that is not unreserved. -/
def escape (space_as_plus : Bool) (c : UInt8) : List UInt8 :=
  if c = 32 ∧ space_as_plus then [43] else [37, hexdigit (c >>> 4), hexdigit (c &&& 0xf)]

/-- The loop of `UrlEncode` behind the bytes `pre`; `ss` may be null. -/
def encodeLoop (space_as_plus : Bool) :
    List UInt8 → Option (List UInt8) → List UInt8 → Option (List UInt8)
  | _, ss, [] => ss
  | pre, ss, c :: rest =>
    if !unreserved c then
      encodeLoop space_as_plus (pre ++ [c]) (some (ss.getD pre ++ escape space_as_plus c)) rest
    else encodeLoop space_as_plus (pre ++ [c]) (ss.map (· ++ [c])) rest

def urlEncode (str : List UInt8) (space_as_plus : Bool) : List UInt8 :=
  (encodeLoop space_as_plus [] none str).getD str

/-- The byte of an escape: `%`, and two digits before the end of the text. -/
def unescape (c : UInt8) : List UInt8 → Option UInt8
  | h :: l :: _ => if c = 37 ∧ IsHex h ∧ IsHex l then some (xdigit h <<< 4 ||| xdigit l) else none
  | _ => none

/-- The loop of `UrlDecode`, which passes over `skip` bytes behind an escape. -/
def decodeLoop (space_as_plus : Bool) :
    ℕ → List UInt8 → Option (List UInt8) → List UInt8 → Option (List UInt8)
  | _, _, ss, [] => ss
  | skip + 1, pre, ss, c :: rest => decodeLoop space_as_plus skip (pre ++ [c]) ss rest
  | 0, pre, ss, c :: rest =>
    if c = 43 ∧ space_as_plus then
      decodeLoop space_as_plus 0 (pre ++ [c]) (some (ss.getD pre ++ [32])) rest
    else
      match unescape c rest with
      | some byte => decodeLoop space_as_plus 2 (pre ++ [c]) (some (ss.getD pre ++ [byte])) rest
      | none => decodeLoop space_as_plus 0 (pre ++ [c]) (ss.map (· ++ [c])) rest

def urlDecode (str : List UInt8) (space_as_plus : Bool) : List UInt8 :=
  (decodeLoop space_as_plus 0 [] none str).getD str

/-! ### What it is for -/

/-- What a byte may be encoded as: itself, `%` and two upper-case digits, or `+` for a space. -/
def Coded (space_as_plus : Bool) (c : UInt8) (piece : List UInt8) : Prop :=
  piece = [c] ∧ unreserved c = true ∨
    (∃ h l, piece = [37, h, l] ∧ h ∈ hexdigits ∧ l ∈ hexdigits) ∨
    piece = [43] ∧ c = 32 ∧ space_as_plus = true

/-! ### Encoding -/

/-- What a byte is encoded as. -/
def piece (b : Bool) (c : UInt8) : List UInt8 := if unreserved c then [c] else escape b c

theorem getD_map_append (pre : List UInt8) (ss : Option (List UInt8)) (c : UInt8) :
    (ss.map (· ++ [c])).getD (pre ++ [c]) = ss.getD pre ++ [c] := by
  cases ss <;> rfl

/-- With a buffer or without one, the loop appends the pieces. -/
theorem encodeLoop_eq (b : Bool) (pre : List UInt8) (ss : Option (List UInt8)) (s : List UInt8) :
    (encodeLoop b pre ss s).getD (pre ++ s) = ss.getD pre ++ s.flatMap (piece b) := by
  induction s generalizing pre ss with
  | nil => simp [encodeLoop]
  | cons c s ih =>
    rw [encodeLoop, List.append_cons pre c s, List.flatMap_cons, ← List.append_assoc]
    by_cases hc : unreserved c = true
    · simp only [hc, Bool.not_true, Bool.false_eq_true, if_false]
      rw [ih, getD_map_append, piece, if_pos hc]
    · simp only [hc, Bool.not_false, if_true]
      rw [ih, piece, if_neg hc, Option.getD_some]

theorem urlEncode_eq (s : List UInt8) (b : Bool) : urlEncode s b = s.flatMap (piece b) :=
  encodeLoop_eq b [] none s

theorem hexdigit_mem :
    ∀ c : UInt8, hexdigit (c >>> 4) ∈ hexdigits ∧ hexdigit (c &&& 0xf) ∈ hexdigits :=
  forall_byte (by decide +kernel)

theorem coded_piece (b : Bool) (c : UInt8) : Coded b c (piece b c) := by
  unfold piece escape
  split_ifs with hc hspace
  · exact .inl ⟨rfl, hc⟩
  · exact .inr (.inr ⟨rfl, hspace⟩)
  · exact .inr (.inl ⟨_, _, rfl, hexdigit_mem c⟩)

/-! ### Decoding -/

/-- What a text is decoded to behind `skip` bytes. -/
def decoded (b : Bool) : ℕ → List UInt8 → List UInt8
  | _, [] => []
  | skip + 1, _ :: rest => decoded b skip rest
  | 0, c :: rest =>
    if c = 43 ∧ b then 32 :: decoded b 0 rest
    else
      match unescape c rest with
      | some byte => byte :: decoded b 2 rest
      | none => c :: decoded b 0 rest

/-- Bytes are only passed over when there is a buffer. -/
theorem decodeLoop_eq (b : Bool) (skip : ℕ) (pre : List UInt8) (ss : Option (List UInt8))
    (s : List UInt8) (hskip : skip = 0 ∨ ss ≠ none) :
    (decodeLoop b skip pre ss s).getD (pre ++ s) = ss.getD pre ++ decoded b skip s := by
  induction s generalizing skip pre ss with
  | nil => simp [decodeLoop, decoded]
  | cons c s ih =>
    rw [List.append_cons pre c s]
    cases skip with
    | succ skip =>
      obtain ⟨buffer, rfl⟩ := Option.ne_none_iff_exists'.mp (hskip.resolve_left (by simp))
      rw [decodeLoop, decoded, ih _ _ _ (.inr (by simp)), Option.getD_some, Option.getD_some]
    | zero =>
      rw [decodeLoop, decoded]
      split_ifs with hplus
      · rw [ih _ _ _ (.inl rfl), Option.getD_some, List.append_assoc, List.singleton_append]
      · cases unescape c s with
        | some byte =>
          dsimp only
          rw [ih _ _ _ (.inr (by simp)), Option.getD_some, List.append_assoc,
            List.singleton_append]
        | none =>
          dsimp only
          rw [ih _ _ _ (.inl rfl), getD_map_append, List.append_assoc, List.singleton_append]

theorem urlDecode_eq (s : List UInt8) (b : Bool) : urlDecode s b = decoded b 0 s :=
  decodeLoop_eq b 0 [] none s (.inl rfl)

/-! ### Round trip -/

/-- Neither `%` nor `+` is unreserved. -/
theorem ne_of_unreserved (c : UInt8) (h : unreserved c = true) : c ≠ 37 ∧ c ≠ 43 := by
  constructor
  · rintro rfl
    revert h
    decide +kernel
  · rintro rfl
    revert h
    decide +kernel

theorem isHex_of_mem {d : UInt8} (h : d ∈ hexdigits) : IsHex d := by
  have hall : (hexdigits.all fun d => decide (IsHex d)) = true := by decide +kernel
  exact of_decide_eq_true (List.all_eq_true.mp hall d h)

theorem isHex_hexdigit (c : UInt8) :
    IsHex (hexdigit (c >>> 4)) ∧ IsHex (hexdigit (c &&& 0xf)) :=
  ⟨isHex_of_mem (hexdigit_mem c).1, isHex_of_mem (hexdigit_mem c).2⟩

theorem join_xdigits : ∀ c : UInt8,
    xdigit (hexdigit (c >>> 4)) <<< 4 ||| xdigit (hexdigit (c &&& 0xf)) = c :=
  forall_byte (by decide +kernel)

/-- What a byte is encoded as is decoded to the byte. -/
theorem decoded_piece (b : Bool) (c : UInt8) (t : List UInt8) :
    decoded b 0 (piece b c ++ t) = c :: decoded b 0 t := by
  unfold piece escape
  split_ifs with hc hspace
  · obtain ⟨hpercent, hplus⟩ := ne_of_unreserved c hc
    have hnone : unescape c t = none := by
      unfold unescape
      split
      · simp [hpercent]
      · rfl
    simp only [List.singleton_append, decoded, hplus, false_and, if_false, hnone]
  · obtain ⟨rfl, hb⟩ := hspace
    simp only [List.singleton_append, decoded, hb, and_self, if_true]
  · have hbyte : unescape 37 (hexdigit (c >>> 4) :: hexdigit (c &&& 0xf) :: t) = some c := by
      simp only [unescape, isHex_hexdigit, and_self, if_true, join_xdigits]
    have hplus : ¬((37 : UInt8) = 43 ∧ b = true) := by simp
    simp only [List.cons_append, List.nil_append, decoded, hplus, if_false, hbyte]

theorem decoded_flatMap (b : Bool) (s : List UInt8) : decoded b 0 (s.flatMap (piece b)) = s := by
  induction s with
  | nil => rfl
  | cons c s ih => rw [List.flatMap_cons, decoded_piece, ih]

/-- What is encoded can be decoded, and it is made of pieces of the three kinds. -/
theorem urlDecode_urlEncode (s : List UInt8) (b : Bool) :
    urlDecode (urlEncode s b) b = s ∧
      ∃ pieces, urlEncode s b = pieces.flatten ∧ List.Forall₂ (Coded b) s pieces := by
  rw [urlDecode_eq, urlEncode_eq, decoded_flatMap]
  refine ⟨rfl, s.map (piece b), List.flatMap_def, ?_⟩
  rw [List.forall₂_map_right_iff, List.forall₂_same]
  exact fun c _ => coded_piece b c

end Muhui.StringUtil
