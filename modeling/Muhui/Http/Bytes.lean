/-
  Byte strings and the C string functions the HTTP code relies on.

  A `std::string` is a list of bytes.  A C string is read from a position of a buffer on; behind the
  end of the list it reads as NUL.
-/
import Mathlib.Data.Nat.Digits.Lemmas
import Mathlib.Data.List.Basic
import Mathlib.Tactic.NormNum

namespace Muhui.Http

/-- The contents of a `std::string` or of a buffer. -/
abbrev Bytes := List UInt8

/-- A property of the bytes of a string is checked byte by byte. -/
instance decidableForallMem (s : Bytes) (p : UInt8 → Prop) [DecidablePred p] :
    Decidable (∀ b ∈ s, p b) :=
  List.decidableBAll p s

instance decidableForallMemOption (o : Option UInt8) (p : UInt8 → Prop) [DecidablePred p] :
    Decidable (∀ b ∈ o, p b) :=
  Option.decidableForallMem o

/-- The bytes of a literal. -/
def bytes (s : String) : Bytes := s.toList.map fun c => UInt8.ofNat c.toNat

def isDigit (b : UInt8) : Bool := 48 ≤ b && b ≤ 57

def isUpper (b : UInt8) : Bool := 65 ≤ b && b ≤ 90

def isLower (b : UInt8) : Bool := 97 ≤ b && b ≤ 122

/-- `isspace` in the C locale. -/
def isSpace (b : UInt8) : Bool := b == 32 || (9 ≤ b && b ≤ 13)

def tolower (b : UInt8) : UInt8 := if isUpper b then b + 32 else b

/-- Whether `strncmp(s, t, n)` is 0. -/
def strncmpEq : Bytes → Bytes → ℕ → Bool
  | _, _, 0 => true
  | s, t, n + 1 => s.headD 0 == t.headD 0 && (s.headD 0 == 0 || strncmpEq s.tail t.tail n)

/-- Whether `strcmp(s, t)` is 0. -/
def strcmpEq (s t : Bytes) : Bool := decide (s.takeWhile (· != 0) = t.takeWhile (· != 0))

/-- What `strcasecmp` compares: the bytes before the first NUL, in lower case. -/
def caseRank (s : Bytes) : List ℕ := (s.takeWhile (· != 0)).map fun b => (tolower b).toNat

/-- Whether `strcasecmp(s, t)` is 0. -/
def strcasecmpEq (s t : Bytes) : Bool := decide (caseRank s = caseRank t)

/-- An unsigned number as an output stream prints it. -/
def decimal (n : ℕ) : Bytes :=
  if n = 0 then [48] else ((Nat.digits 10 n).map fun d => UInt8.ofNat (48 + d)).reverse

/-- The value of a list of decimal digits. -/
def digitsValue (s : Bytes) : ℕ := s.foldl (fun n b => 10 * n + (b.toNat - 48)) 0

/-- `boost::lexical_cast<uint64_t>`: an optional sign and decimal digits that do not overflow; a
minus sign negates modulo `2 ^ 64`.  `none` is `bad_lexical_cast`. -/
def lexicalCast (s : Bytes) : Option ℕ :=
  let ds := if s.head? = some 45 ∨ s.head? = some 43 then s.tail else s
  if ds = [] ∨ ds.all isDigit = false ∨ 2 ^ 64 ≤ digitsValue ds then none
  else if s.head? = some 45 then some ((2 ^ 64 - digitsValue ds) % 2 ^ 64)
  else some (digitsValue ds)

/-- `strtol(s, NULL, 10)`: blanks, an optional sign and the digits that follow, clamped to the range
of `long`. -/
def strtol (s : Bytes) : ℤ :=
  let s := s.dropWhile isSpace
  let ds := if s.head? = some 45 ∨ s.head? = some 43 then s.tail else s
  let n := digitsValue (ds.takeWhile isDigit)
  if s.head? = some 45 then max (-(n : ℤ)) (-2 ^ 63) else min (n : ℤ) (2 ^ 63 - 1)

/-- `atoi`, which is `strtol` cut to an `int`. -/
def atoi (s : Bytes) : Int32 := Int32.ofInt (strtol s)

/-- The conversion of a `size_t` to `int`. -/
def toInt (n : ℕ) : ℤ := Int.bmod n (2 ^ 32)

/-- A size survives the conversion exactly when it is small. -/
theorem toInt_eq_iff {n : ℕ} : toInt n = n ↔ n < 2 ^ 31 := by
  have h31 : 2 ^ 31 = 2147483648 := by norm_num
  have h32 : 2 ^ 32 = 4294967296 := by norm_num
  unfold toInt
  rw [h31, h32]
  constructor
  · intro h
    have hlt : Int.bmod n 4294967296 < (4294967296 + 1) / 2 := Int.bmod_lt (by norm_num)
    omega
  · intro hn
    apply Int.bmod_eq_of_le
    · omega
    · omega

theorem toInt_of_lt {n : ℕ} (hn : n < 2 ^ 31) : toInt n = n := toInt_eq_iff.mpr hn

/-! ### Digits -/

theorem decimal_ne_nil (n : ℕ) : decimal n ≠ [] := by
  unfold decimal
  split_ifs with hn
  · exact List.cons_ne_nil _ _
  · simpa [Nat.digits_eq_nil_iff_eq_zero] using hn

theorem isDigit_of_mem_decimal {n : ℕ} {b : UInt8} (hb : b ∈ decimal n) : isDigit b = true := by
  unfold decimal at hb
  split_ifs at hb with hn
  · rw [List.mem_singleton.mp hb]
    rfl
  · obtain ⟨d, hd, rfl⟩ := List.mem_map.mp (List.mem_reverse.mp hb)
    have hlt : d < 10 := Nat.digits_lt_base (by omega) hd
    interval_cases d <;> rfl

theorem digitsValue_append (s : Bytes) (b : UInt8) :
    digitsValue (s ++ [b]) = 10 * digitsValue s + (b.toNat - 48) := by
  rw [digitsValue, List.foldl_append]
  rfl

theorem digitsValue_map {ds : List ℕ} (hds : ∀ d ∈ ds, d < 10) :
    digitsValue ((ds.map fun d => UInt8.ofNat (48 + d)).reverse) = Nat.ofDigits 10 ds := by
  induction ds with
  | nil => rfl
  | cons d ds ih =>
    have hd : d < 10 := hds d List.mem_cons_self
    have hbyte : (UInt8.ofNat (48 + d)).toNat - 48 = d := by
      interval_cases d <;> rfl
    rw [List.map_cons, List.reverse_cons, digitsValue_append, hbyte,
      ih fun d' hd' => hds d' (List.mem_cons_of_mem _ hd'), Nat.ofDigits_cons]
    omega

/-- Printing a number and reading it back. -/
theorem digitsValue_decimal (n : ℕ) : digitsValue (decimal n) = n := by
  unfold decimal
  split_ifs with hn
  · rw [hn]
    rfl
  · rw [digitsValue_map fun d hd => Nat.digits_lt_base (by omega) hd, Nat.ofDigits_digits]

theorem decimal_head (n : ℕ) : ∃ b bs, decimal n = b :: bs ∧ isDigit b = true := by
  obtain ⟨b, bs, h⟩ := List.exists_cons_of_ne_nil (decimal_ne_nil n)
  exact ⟨b, bs, h, isDigit_of_mem_decimal (h ▸ List.mem_cons_self)⟩

/-- `lexical_cast` reads what an output stream prints. -/
theorem lexicalCast_decimal {n : ℕ} (hn : n < 2 ^ 64) : lexicalCast (decimal n) = some n := by
  obtain ⟨b, bs, h, hb⟩ := decimal_head n
  have hminus : (decimal n).head? ≠ some 45 := by
    rw [h]
    rintro ⟨⟩
    exact Bool.false_ne_true hb
  have hplus : (decimal n).head? ≠ some 43 := by
    rw [h]
    rintro ⟨⟩
    exact Bool.false_ne_true hb
  have hall : (decimal n).all isDigit = true :=
    List.all_eq_true.mpr fun b hb => isDigit_of_mem_decimal hb
  unfold lexicalCast
  simp only [hminus, hplus, or_self, if_false, hall, digitsValue_decimal, decimal_ne_nil,
    Bool.true_eq_false, not_le.mpr hn]

/-- An `int` printed as `unsigned` and read back as an `int`. -/
theorem ofInt_toUInt32 (x : Int32) : Int32.ofInt x.toUInt32.toNat = x := by
  apply Int32.toBitVec_inj.mp
  rw [Int32.toBitVec_ofInt]
  show BitVec.ofInt 32 (x.toBitVec.toNat : ℤ) = x.toBitVec
  rw [BitVec.ofInt_natCast, BitVec.ofNat_toNat, BitVec.setWidth_eq]

theorem strtol_decimal {n : ℕ} (hn : n < 2 ^ 63) {b : UInt8} (hb : isDigit b = false)
    (rest : Bytes) : strtol (decimal n ++ b :: rest) = n := by
  obtain ⟨c, cs, hdecimal, hc⟩ := decimal_head n
  have hspace : isSpace c = false := by
    grind [isDigit, isSpace]
  have hdrop : (decimal n ++ b :: rest).dropWhile isSpace = decimal n ++ b :: rest := by
    rw [hdecimal, List.cons_append, List.dropWhile_cons_of_neg (by simp [hspace])]
  have hhead : (decimal n ++ b :: rest).head? = some c := by
    rw [hdecimal]
    rfl
  have hminus : c ≠ 45 := by
    rintro rfl
    exact Bool.false_ne_true hc
  have hplus : c ≠ 43 := by
    rintro rfl
    exact Bool.false_ne_true hc
  have htake : (decimal n ++ b :: rest).takeWhile isDigit = decimal n := by
    rw [List.takeWhile_append_of_pos fun d hd => isDigit_of_mem_decimal hd,
      List.takeWhile_cons_of_neg (by simp [hb]), List.append_nil]
  have h63 : (2 : ℤ) ^ 63 = ((2 ^ 63 : ℕ) : ℤ) := by norm_num
  simp only [strtol, hdrop, hhead, Option.some.injEq, hminus, hplus, or_self, if_false, htake,
    digitsValue_decimal]
  rw [h63]
  omega
/-- `atoi` reads a status code that an output stream prints as `unsigned`. -/
theorem atoi_decimal (x : Int32) {b : UInt8} (hb : isDigit b = false) (rest : Bytes) :
    atoi (decimal x.toUInt32.toNat ++ b :: rest) = x := by
  have hlt : x.toUInt32.toNat < 2 ^ 63 := x.toUInt32.toNat_lt.trans (by norm_num)
  rw [atoi, strtol_decimal hlt hb, ofInt_toUInt32]

/-! ### String comparison -/

theorem strncmpEq_take (s t : Bytes) (n : ℕ) : strncmpEq (s.take n) t n = strncmpEq s t n := by
  induction n generalizing s t with
  | zero => rfl
  | succ n ih =>
    cases s with
    | nil => rfl
    | cons b s =>
      show (b == _ && (b == 0 || strncmpEq (s.take n) _ n)) = _
      rw [ih]
      rfl

/-- Comparing with all of a literal without NUL asks whether it is a prefix. -/
theorem strncmpEq_length_iff {t m : Bytes} (ht : ∀ b ∈ t, b ≠ 0) :
    strncmpEq t m t.length = true ↔ t <+: m := by
  induction t generalizing m with
  | nil => simp [strncmpEq]
  | cons b t ih =>
    have hb : b ≠ 0 := ht b List.mem_cons_self
    cases m with
    | nil => simp [strncmpEq, hb]
    | cons c m =>
      rw [List.length_cons, strncmpEq, List.cons_prefix_cons,
        ← ih fun d hd => ht d (List.mem_cons_of_mem _ hd)]
      simp [hb]

theorem takeWhile_ne_zero {s : Bytes} (hs : ∀ b ∈ s, b ≠ 0) : s.takeWhile (· != 0) = s := by
  have happend : (s ++ []).takeWhile (· != 0) = s ++ [].takeWhile (· != 0) :=
    List.takeWhile_append_of_pos fun b hb => by simpa using hs b hb
  rwa [List.append_nil, List.takeWhile_nil, List.append_nil] at happend

/-- Strings without NUL compare as the lists that they are. -/
theorem strcmpEq_iff {s t : Bytes} (hs : ∀ b ∈ s, b ≠ 0) (ht : ∀ b ∈ t, b ≠ 0) :
    strcmpEq s t = true ↔ s = t := by
  rw [strcmpEq, takeWhile_ne_zero hs, takeWhile_ne_zero ht, decide_eq_true_iff]

end Muhui.Http
