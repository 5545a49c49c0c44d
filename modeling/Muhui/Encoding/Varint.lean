/-
  Variable-length numbers: seven bits to a byte, the lowest ones first, and the high bit set in
  every byte but the last.

  A number below `128 ^ k` takes at most `k` bytes (`length_varint_le`), and no other text of the
  number is as short (`varint_shortest`).  `zigzag` folds signed words into unsigned ones, so that a
  word with a small absolute value has a short text.
-/
import Mathlib.Data.List.Basic
import Mathlib.Data.Nat.Notation
import Mathlib.Tactic.Ring

namespace Muhui

/-! ### Numbers -/

/-- The bytes of a number. -/
def varint (v : ℕ) : List UInt8 :=
  if 128 ≤ v then UInt8.ofNat (v % 128 + 128) :: varint (v / 128) else [UInt8.ofNat v]
termination_by v

theorem varint_of_lt {v : ℕ} (h : v < 128) : varint v = [UInt8.ofNat v] := by
  rw [varint, if_neg (by omega)]

theorem varint_of_ge {v : ℕ} (h : 128 ≤ v) :
    varint v = UInt8.ofNat (v % 128 + 128) :: varint (v / 128) := by
  rw [varint, if_pos h]

theorem length_varint_pos (v : ℕ) : 0 < (varint v).length := by
  rcases Nat.lt_or_ge v 128 with hlt | hge
  · rw [varint_of_lt hlt]
    exact Nat.one_pos
  · rw [varint_of_ge hge]
    exact Nat.succ_pos _

/-- The length of the text is the number of digits to the base 128. -/
theorem length_varint_le {k v : ℕ} (h : v < 128 ^ (k + 1)) : (varint v).length ≤ k + 1 := by
  induction k generalizing v with
  | zero =>
    rw [varint_of_lt (by omega)]
    exact le_rfl
  | succ k ih =>
    rcases Nat.lt_or_ge v 128 with hlt | hge
    · rw [varint_of_lt hlt]
      exact Nat.succ_le_succ (Nat.zero_le _)
    · have hdiv : v / 128 < 128 ^ (k + 1) := by
        rw [Nat.pow_succ] at h
        omega
      rw [varint_of_ge hge, List.length_cons]
      exact Nat.succ_le_succ (ih hdiv)

/-! ### Texts -/

/-- A text of a number: the high bit is set in every byte but the last. -/
def IsText : List UInt8 → Prop
  | [] => False
  | [b] => b.toNat < 128
  | b :: bs => 128 ≤ b.toNat ∧ IsText bs

/-- The number that a text stands for. -/
def ofText : List UInt8 → ℕ
  | [] => 0
  | b :: bs => b.toNat % 128 + 128 * ofText bs

theorem isText_cons {b : UInt8} {bs : List UInt8} (h : bs ≠ []) :
    IsText (b :: bs) ↔ 128 ≤ b.toNat ∧ IsText bs := by
  cases bs with
  | nil => exact absurd rfl h
  | cons c bs => exact Iff.rfl

theorem varint_ne_nil (v : ℕ) : varint v ≠ [] := List.ne_nil_of_length_pos (length_varint_pos v)

theorem isText_varint (v : ℕ) : IsText (varint v) := by
  induction v using varint.induct with
  | case1 v hge ih =>
    rw [varint_of_ge hge, isText_cons (varint_ne_nil _)]
    refine ⟨?_, ih⟩
    rw [UInt8.toNat_ofNat']
    omega
  | case2 v hlt =>
    rw [varint_of_lt (by omega)]
    show (UInt8.ofNat v).toNat < 128
    rw [UInt8.toNat_ofNat']
    omega

theorem ofText_varint (v : ℕ) : ofText (varint v) = v := by
  induction v using varint.induct with
  | case1 v hge ih =>
    rw [varint_of_ge hge, ofText, ih, UInt8.toNat_ofNat']
    omega
  | case2 v hlt =>
    rw [varint_of_lt (by omega), ofText, ofText, UInt8.toNat_ofNat']
    omega

/-- **The shortest text.** Every text of a number is at least as long as `varint`, and longer if it
is another one. -/
theorem varint_shortest {bs : List UInt8} (h : IsText bs) :
    bs = varint (ofText bs) ∨ (varint (ofText bs)).length < bs.length := by
  induction bs with
  | nil => exact h.elim
  | cons b bs ih =>
    have hb := b.toNat_lt
    rcases eq_or_ne bs [] with rfl | hne
    · replace h : b.toNat < 128 := h
      have hvalue : ofText [b] = b.toNat := by
        rw [ofText, ofText]
        omega
      rw [hvalue, varint_of_lt h, UInt8.ofNat_toNat]
      exact .inl rfl
    · obtain ⟨hhigh, htext⟩ := (isText_cons hne).mp h
      have hlength := List.length_pos_of_ne_nil hne
      rw [ofText]
      rcases Nat.lt_or_ge (b.toNat % 128 + 128 * ofText bs) 128 with hlt | hge
      -- the bytes behind the first one stand for nothing
      · right
        rw [varint_of_lt hlt, List.length_singleton, List.length_cons]
        omega
      · have hdiv : (b.toNat % 128 + 128 * ofText bs) / 128 = ofText bs := by omega
        have hmod : (b.toNat % 128 + 128 * ofText bs) % 128 + 128 = b.toNat := by omega
        rw [varint_of_ge hge, hdiv, hmod, UInt8.ofNat_toNat]
        rcases ih htext with heq | hshorter
        · exact .inl (congrArg (b :: ·) heq)
        · exact .inr (Nat.succ_lt_succ hshorter)

/-- The number of bytes of the text at the beginning of the list, which ends with byte number
`passes` at the latest; `none` where the list ends before the text does. -/
def textLength : ℕ → List UInt8 → Option ℕ
  | 0, _ => some 0
  | _ + 1, [] => none
  | passes + 1, b :: bs =>
    if b.toNat < 128 then some 1 else (textLength passes bs).map (· + 1)

/-- The first byte of a text is its only one, or has its high bit set and a text behind it. -/
theorem exists_of_textLength {passes k : ℕ} {bs : List UInt8}
    (h : textLength (passes + 1) bs = some k) :
    ∃ b bs', bs = b :: bs' ∧ (b.toNat < 128 ∧ k = 1 ∨
      128 ≤ b.toNat ∧ ∃ k', textLength passes bs' = some k' ∧ k = k' + 1) := by
  cases bs with
  | nil => cases h
  | cons b bs =>
    refine ⟨b, bs, rfl, ?_⟩
    rw [textLength] at h
    split_ifs at h with hlow
    · exact .inl ⟨hlow, (Option.some.inj h).symm⟩
    · obtain ⟨k', hk', rfl⟩ := Option.map_eq_some_iff.mp h
      exact .inr ⟨not_lt.mp hlow, k', hk', rfl⟩

/-- Every byte before the last one has its high bit set. -/
theorem high_of_textLength {passes k i : ℕ} {bs : List UInt8} (h : textLength passes bs = some k)
    (hi : i + 1 < k) : ∃ b, bs[i]? = some b ∧ 128 ≤ b.toNat := by
  induction passes generalizing bs k i with
  | zero =>
    obtain rfl := Option.some.inj h
    omega
  | succ passes ih =>
    obtain ⟨b, bs, rfl, ⟨-, rfl⟩ | ⟨hhigh, k', hk', rfl⟩⟩ := exists_of_textLength h
    · omega
    · cases i with
      | zero => exact ⟨b, rfl, hhigh⟩
      | succ i =>
        obtain ⟨c, hc, hchigh⟩ := ih hk' (show i + 1 < k' by omega)
        exact ⟨c, hc, hchigh⟩

/-- A text is found, whatever follows it. -/
theorem textLength_varint {passes v : ℕ} (h : (varint v).length ≤ passes) (bs : List UInt8) :
    textLength passes (varint v ++ bs) = some (varint v).length := by
  induction passes generalizing v with
  | zero =>
    have hpos := length_varint_pos v
    omega
  | succ passes ih =>
    rcases Nat.lt_or_ge v 128 with hlt | hge
    · rw [varint_of_lt hlt, List.cons_append, textLength, UInt8.toNat_ofNat', if_pos (by omega)]
      rfl
    · rw [varint_of_ge hge, List.length_cons] at h
      rw [varint_of_ge hge, List.cons_append, textLength, UInt8.toNat_ofNat', if_neg (by omega),
        ih (by omega), Option.map_some, List.length_cons]

theorem textLength_pos {passes k : ℕ} {bs : List UInt8} (hpasses : 0 < passes)
    (h : textLength passes bs = some k) : 0 < k := by
  obtain ⟨passes, rfl⟩ : ∃ m, passes = m + 1 := ⟨passes - 1, by omega⟩
  obtain ⟨b, bs, -, ⟨-, rfl⟩ | ⟨-, k', -, rfl⟩⟩ := exists_of_textLength h
  · exact Nat.one_pos
  · exact Nat.succ_pos k'

/-! ### Signed words -/

section Zigzag

variable {n : ℕ}

/-- `0, -1, 1, -2, …` as `0, 1, 2, 3, …` -/
def zigzag (x : BitVec n) : BitVec n := if x.msb then -x * 2 - 1 else x * 2

def unzigzag (y : BitVec n) : BitVec n := (y >>> 1) ^^^ -(y &&& 1)

theorem two_pow_even (hn : 1 < n) : ∃ m, 2 ^ n = 2 * m ∧ 1 < m := by
  obtain ⟨k, rfl⟩ : ∃ k, n = k + 2 := ⟨n - 2, by omega⟩
  refine ⟨2 ^ (k + 1), Nat.pow_succ', ?_⟩
  exact Nat.one_lt_two_pow (Nat.succ_ne_zero k)

theorem toNat_zigzag (hn : 1 < n) (x : BitVec n) :
    (zigzag x).toNat =
      if 2 * x.toNat < 2 ^ n then 2 * x.toNat else 2 * (2 ^ n - x.toNat) - 1 := by
  obtain ⟨m, hm, hone⟩ := two_pow_even hn
  have hx := x.isLt
  have htwo : (2 : BitVec n).toNat = 2 := by
    show (BitVec.ofNat n 2).toNat = 2
    rw [BitVec.toNat_ofNat, Nat.mod_eq_of_lt]
    omega
  have hbit : (1 : BitVec n).toNat = 1 := by
    show (BitVec.ofNat n 1).toNat = 1
    rw [BitVec.toNat_ofNat, Nat.mod_eq_of_lt]
    omega
  unfold zigzag
  by_cases hneg : 2 * x.toNat < 2 ^ n
  · rw [BitVec.msb_eq_false_iff_two_mul_lt.mpr hneg, if_neg Bool.false_ne_true, if_pos hneg,
      BitVec.toNat_mul, htwo, Nat.mul_comm, Nat.mod_eq_of_lt hneg]
  · rw [BitVec.msb_eq_true_iff_two_mul_ge.mpr (by omega), if_pos rfl, if_neg hneg,
      BitVec.toNat_sub, hbit, BitVec.toNat_mul, htwo, BitVec.toNat_neg]
    have hneg' : (2 ^ n - x.toNat) % 2 ^ n = 2 ^ n - x.toNat := Nat.mod_eq_of_lt (by omega)
    rw [hneg']
    -- the least word doubles to zero, and the word before zero is the last one
    rcases Nat.lt_or_ge (2 ^ n) (2 * x.toNat) with hlt | hge
    · rw [Nat.mod_eq_of_lt (show (2 ^ n - x.toNat) * 2 < 2 ^ n by omega),
        Nat.mod_eq_sub_mod (by omega), Nat.mod_eq_of_lt (by omega)]
      omega
    · have hmin : (2 ^ n - x.toNat) * 2 = 2 ^ n := by omega
      rw [hmin, Nat.mod_self, Nat.mod_eq_of_lt (by omega)]
      omega

theorem toNat_unzigzag (hn : 1 < n) (y : BitVec n) :
    (unzigzag y).toNat = if y.toNat % 2 = 0 then y.toNat / 2 else 2 ^ n - 1 - y.toNat / 2 := by
  obtain ⟨m, hm, hone⟩ := two_pow_even hn
  have hbit : (1 : BitVec n).toNat = 1 := by
    show (BitVec.ofNat n 1).toNat = 1
    rw [BitVec.toNat_ofNat, Nat.mod_eq_of_lt]
    omega
  have hlow : (y &&& 1).toNat = y.toNat % 2 := by
    rw [BitVec.toNat_and, hbit, Nat.and_one_is_mod]
  have hhalf : (y >>> 1).toNat = y.toNat / 2 := by
    rw [BitVec.toNat_ushiftRight, Nat.shiftRight_eq_div_pow, Nat.pow_one]
  unfold unzigzag
  split_ifs with heven
  · have hzero : y &&& 1 = 0#n := BitVec.eq_of_toNat_eq (by rw [hlow, heven]; simp)
    rw [hzero, BitVec.neg_zero, BitVec.xor_zero, hhalf]
  · have hodd : y &&& 1 = 1#n := by
      apply BitVec.eq_of_toNat_eq
      show (y &&& 1).toNat = (1 : BitVec n).toNat
      rw [hlow, hbit]
      omega
    have hall : -1#n = BitVec.allOnes n := BitVec.neg_one_eq_allOnes
    rw [hodd, hall, BitVec.xor_allOnes, BitVec.toNat_not, hhalf]

theorem unzigzag_zigzag (hn : 1 < n) (x : BitVec n) : unzigzag (zigzag x) = x := by
  obtain ⟨m, hm, -⟩ := two_pow_even hn
  have hx := x.isLt
  apply BitVec.eq_of_toNat_eq
  rw [toNat_unzigzag hn, toNat_zigzag hn]
  split_ifs <;> omega

theorem zigzag_unzigzag (hn : 1 < n) (y : BitVec n) : zigzag (unzigzag y) = y := by
  obtain ⟨m, hm, -⟩ := two_pow_even hn
  have hy := y.isLt
  apply BitVec.eq_of_toNat_eq
  rw [toNat_zigzag hn, toNat_unzigzag hn]
  split_ifs <;> omega

end Zigzag

end Muhui
