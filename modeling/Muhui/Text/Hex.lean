/-
  `hexstring_from_data` and `data_from_hexstring` (`hash_util.cc`).

  Each byte is two digits, the high one first.  `data_from_hexstring` takes digits of either case
  and throws when the length is odd or there is another character (`hexstring_faithful`).
-/
import Muhui.Encoding.Word

namespace Muhui.Hex

/-! ### The code -/

/-- `(c > 9) ? c + 'a' - 10 : c + '0'` -/
def digit (c : UInt8) : UInt8 := if c > 9 then c + 97 - 10 else c + 48

def hexstringFromData : List UInt8 → List UInt8
  | [] => []
  | b :: data => digit ((b >>> 4) &&& 0xf) :: digit (b &&& 0xf) :: hexstringFromData data

/-- The first `switch`; the default case throws. -/
def high (c : UInt8) : Option UInt8 :=
  if 97 ≤ c ∧ c ≤ 102 then some ((c - 97 + 10) <<< 4)
  else if 65 ≤ c ∧ c ≤ 70 then some ((c - 65 + 10) <<< 4)
  else if 48 ≤ c ∧ c ≤ 57 then some ((c - 48) <<< 4)
  else none

/-- The second `switch`. -/
def low (byte c : UInt8) : Option UInt8 :=
  if 97 ≤ c ∧ c ≤ 102 then some (byte ||| (c - 97 + 10))
  else if 65 ≤ c ∧ c ≤ 70 then some (byte ||| (c - 65 + 10))
  else if 48 ≤ c ∧ c ≤ 57 then some (byte ||| (c - 48))
  else none

/-- The loop; behind the last character it would find the terminator. -/
def loop : List UInt8 → Option (List UInt8)
  | [] => some []
  | [c] => (high c).bind fun byte => low byte 0 |>.map fun byte => [byte]
  | c :: c' :: hexstring =>
    (high c).bind fun byte => (low byte c').bind fun byte => (loop hexstring).map (byte :: ·)

/-- `none` is an `std::invalid_argument`. -/
def dataFromHexstring (hexstring : List UInt8) : Option (List UInt8) :=
  if hexstring.length % 2 ≠ 0 then none
  else if hexstring.length = 0 then some []
  else loop hexstring

/-! ### What it is for -/

/-- `[0-9a-fA-F]` -/
def IsHex (c : UInt8) : Prop := 48 ≤ c ∧ c ≤ 57 ∨ 65 ≤ c ∧ c ≤ 70 ∨ 97 ≤ c ∧ c ≤ 102

instance (c : UInt8) : Decidable (IsHex c) := inferInstanceAs (Decidable (_ ∨ _))

def toLower (c : UInt8) : UInt8 := if 65 ≤ c ∧ c ≤ 90 then c + 32 else c

/-! ### Digits -/

/-- The value of a digit. -/
def value (c : UInt8) : UInt8 :=
  if 97 ≤ c ∧ c ≤ 102 then c - 97 + 10 else if 65 ≤ c ∧ c ≤ 70 then c - 65 + 10 else c - 48

variable {c c' byte : UInt8}

theorem high_eq (c : UInt8) : high c = if IsHex c then some (value c <<< 4) else none := by
  unfold high IsHex value
  split_ifs <;> first | rfl | tauto

theorem low_eq (byte c : UInt8) :
    low byte c = if IsHex c then some (byte ||| value c) else none := by
  unfold low IsHex value
  split_ifs <;> first | rfl | tauto

theorem isHex_digit_low : ∀ b : UInt8, IsHex (digit (b &&& 0xf)) :=
  forall_byte (by decide +kernel)

/-- The two digits of a byte give the byte. -/
theorem join_digits : ∀ b : UInt8,
    value (digit ((b >>> 4) &&& 0xf)) <<< 4 ||| value (digit (b &&& 0xf)) = b :=
  forall_byte (by decide +kernel)

theorem value_lt : ∀ c : UInt8, IsHex c → value c < 16 := forall_byte (by decide +kernel)

theorem digit_value : ∀ c : UInt8, IsHex c → digit (value c) = toLower c :=
  forall_byte (by decide +kernel)

/-- The byte of two digits gives the digits. -/
theorem split_values {x y : UInt8} (hx : x < 16) (hy : y < 16) :
    ((x <<< 4 ||| y) >>> 4) &&& 0xf = x ∧ (x <<< 4 ||| y) &&& 0xf = y := by
  have hall : ∀ n m : Fin 16,
      (((UInt8.ofNat n <<< 4) ||| UInt8.ofNat m) >>> 4) &&& 0xf = UInt8.ofNat n ∧
        ((UInt8.ofNat n <<< 4) ||| UInt8.ofNat m) &&& 0xf = UInt8.ofNat m := by
    decide +kernel
  have hxy := hall ⟨x.toNat, hx⟩ ⟨y.toNat, hy⟩
  rwa [UInt8.ofNat_toNat, UInt8.ofNat_toNat] at hxy

/-! ### The loop -/

variable {s d : List UInt8}

theorem loop_hexstring (d : List UInt8) : loop (hexstringFromData d) = some d := by
  induction d with
  | nil => rfl
  | cons b d ih =>
    simp only [hexstringFromData, loop, high_eq, low_eq, isHex_digit_low,
      if_true, Option.bind_some, ih, Option.map_some, join_digits]

theorem loop_eq_none_iff (hs : s.length % 2 = 0) : loop s = none ↔ ∃ c ∈ s, ¬IsHex c := by
  induction s using loop.induct with
  | case1 => simp [loop]
  | case2 c => simp at hs
  | case3 c c' s ih =>
    have hs' : s.length % 2 = 0 := by
      simp only [List.length_cons] at hs
      omega
    rw [loop, high_eq]
    by_cases hc : IsHex c
    · rw [if_pos hc, Option.bind_some, low_eq]
      by_cases hc' : IsHex c'
      · rw [if_pos hc', Option.bind_some, Option.map_eq_none_iff, ih hs']
        simp [hc, hc']
      · rw [if_neg hc', Option.bind_none]
        exact iff_of_true rfl ⟨c', by simp, hc'⟩
    · rw [if_neg hc, Option.bind_none]
      exact iff_of_true rfl ⟨c, by simp, hc⟩

theorem hexstring_of_loop (h : loop s = some d) : hexstringFromData d = s.map toLower := by
  induction s using loop.induct generalizing d with
  | case1 =>
    obtain rfl := Option.some.inj h
    rfl
  | case2 c =>
    -- the terminator is not a digit
    have hzero : ¬IsHex 0 := by decide
    simp only [loop, low_eq, hzero, if_false, Option.map_none, Option.bind_eq_some_iff] at h
    obtain ⟨_, _, hnone⟩ := h
    cases hnone
  | case3 c c' s ih =>
    rw [loop, high_eq] at h
    by_cases hc : IsHex c
    · rw [if_pos hc, Option.bind_some, low_eq] at h
      by_cases hc' : IsHex c'
      · rw [if_pos hc', Option.bind_some] at h
        obtain ⟨d', hd', rfl⟩ := Option.map_eq_some_iff.mp h
        obtain ⟨hhigh, hlow⟩ := split_values (value_lt c hc) (value_lt c' hc')
        rw [hexstringFromData, hhigh, hlow, digit_value c hc, digit_value c' hc', ih hd']
        rfl
      · rw [if_neg hc', Option.bind_none] at h
        cases h
    · rw [if_neg hc, Option.bind_none] at h
      cases h

theorem length_hexstring (d : List UInt8) : (hexstringFromData d).length = 2 * d.length := by
  induction d with
  | nil => rfl
  | cons b d ih =>
    simp only [hexstringFromData, List.length_cons, ih]
    omega

/-! ### Both directions -/

/-- For an even length the result is that of the loop, also for the empty string. -/
theorem dataFromHexstring_eq (hs : s.length % 2 = 0) : dataFromHexstring s = loop s := by
  unfold dataFromHexstring
  rw [if_neg (not_not_intro hs)]
  split_ifs with hzero
  · rw [List.length_eq_zero_iff.mp hzero]
    rfl
  · rfl

theorem dataFromHexstring_eq_none_iff (s : List UInt8) :
    dataFromHexstring s = none ↔ s.length % 2 = 1 ∨ ∃ c ∈ s, ¬IsHex c := by
  by_cases hs : s.length % 2 = 0
  · rw [dataFromHexstring_eq hs, loop_eq_none_iff hs]
    simp [hs]
  · have hodd : s.length % 2 = 1 := by omega
    unfold dataFromHexstring
    rw [if_pos hs]
    simp [hodd]

/-- Data comes back from its digits, and digits come back in lower case from their data. -/
theorem hexstring_faithful :
    (∀ d, dataFromHexstring (hexstringFromData d) = some d) ∧
      ∀ s, (dataFromHexstring s = none ↔ s.length % 2 = 1 ∨ ∃ c ∈ s, ¬IsHex c) ∧
        ∀ d, dataFromHexstring s = some d → hexstringFromData d = s.map toLower := by
  refine ⟨fun d => ?_, fun s => ⟨dataFromHexstring_eq_none_iff s, fun d h => ?_⟩⟩
  · have heven : (hexstringFromData d).length % 2 = 0 := by
      rw [length_hexstring]
      omega
    rw [dataFromHexstring_eq heven, loop_hexstring]
  · by_cases hs : s.length % 2 = 0
    · rw [dataFromHexstring_eq hs] at h
      exact hexstring_of_loop h
    · have hnone := (dataFromHexstring_eq_none_iff s).mpr (.inl (by omega))
      rw [hnone] at h
      cases h

end Muhui.Hex
