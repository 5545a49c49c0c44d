/-
  A word of `w` bytes as a number, and the bytes that it has in memory.

  `littleEndian` lists the bytes of a number from the lowest one on, `ofLittleEndian` reads them.
  Big-endian bytes are the same list from behind, so that the swap of the bytes of a word is the
  reversal of its list (`littleEndian_byteswap`).
-/
import Mathlib.Data.List.Basic
import Mathlib.Data.Nat.Bitwise
import Mathlib.Data.Nat.Notation
import Mathlib.Tactic.Ring

namespace Muhui

/-- The lowest `w` bytes of a number, from the lowest one on. -/
def littleEndian : ℕ → ℕ → List UInt8
  | 0, _ => []
  | w + 1, v => UInt8.ofNat (v % 256) :: littleEndian w (v / 256)

def ofLittleEndian : List UInt8 → ℕ
  | [] => 0
  | b :: bs => b.toNat + 256 * ofLittleEndian bs

/-- The word with its bytes in the opposite order. -/
def byteswap (w v : ℕ) : ℕ := ofLittleEndian (littleEndian w v).reverse

@[simp] theorem length_littleEndian (w v : ℕ) : (littleEndian w v).length = w := by
  induction w generalizing v with
  | zero => rfl
  | succ w ih => rw [littleEndian, List.length_cons, ih]

theorem ofLittleEndian_lt (bs : List UInt8) : ofLittleEndian bs < 256 ^ bs.length := by
  induction bs with
  | nil => exact Nat.one_pos
  | cons b bs ih =>
    have hb := b.toNat_lt
    rw [ofLittleEndian, List.length_cons, Nat.pow_succ]
    omega

theorem ofLittleEndian_append (bs bs' : List UInt8) :
    ofLittleEndian (bs ++ bs') = ofLittleEndian bs + 256 ^ bs.length * ofLittleEndian bs' := by
  induction bs with
  | nil => simp [ofLittleEndian]
  | cons b bs ih =>
    rw [List.cons_append, ofLittleEndian, ofLittleEndian, ih, List.length_cons]
    ring

/-- Every byte counts for what it is at its place. -/
theorem mul_pow_le_ofLittleEndian {bs : List UInt8} {b : UInt8} {i : ℕ} (h : bs[i]? = some b) :
    b.toNat * 256 ^ i ≤ ofLittleEndian bs := by
  induction bs generalizing i with
  | nil => simp at h
  | cons c bs ih =>
    rw [ofLittleEndian]
    cases i with
    | zero =>
      obtain rfl := Option.some.inj h
      rw [Nat.pow_zero, Nat.mul_one]
      exact Nat.le_add_right _ _
    | succ i =>
      have hle := ih h
      rw [Nat.pow_succ]
      calc b.toNat * (256 ^ i * 256) = 256 * (b.toNat * 256 ^ i) := by ring
        _ ≤ 256 * ofLittleEndian bs := Nat.mul_le_mul_left _ hle
        _ ≤ c.toNat + 256 * ofLittleEndian bs := Nat.le_add_left _ _

theorem ofLittleEndian_littleEndian {w v : ℕ} (h : v < 256 ^ w) :
    ofLittleEndian (littleEndian w v) = v := by
  induction w generalizing v with
  | zero =>
    rw [Nat.pow_zero] at h
    exact (Nat.lt_one_iff.mp h).symm
  | succ w ih =>
    have hdiv : v / 256 < 256 ^ w := by
      rw [Nat.pow_succ] at h
      omega
    have hmod : (UInt8.ofNat (v % 256)).toNat = v % 256 := by
      rw [UInt8.toNat_ofNat']
      omega
    rw [littleEndian, ofLittleEndian, ih hdiv, hmod]
    exact Nat.mod_add_div v 256

theorem littleEndian_ofLittleEndian (bs : List UInt8) :
    littleEndian bs.length (ofLittleEndian bs) = bs := by
  induction bs with
  | nil => rfl
  | cons b bs ih =>
    have hb := b.toNat_lt
    have hmod : (b.toNat + 256 * ofLittleEndian bs) % 256 = b.toNat := by omega
    have hdiv : (b.toNat + 256 * ofLittleEndian bs) / 256 = ofLittleEndian bs := by omega
    rw [List.length_cons, ofLittleEndian, littleEndian, hmod, hdiv, ih, UInt8.ofNat_toNat]

theorem byteswap_lt (w v : ℕ) : byteswap w v < 256 ^ w := by
  have h := ofLittleEndian_lt (littleEndian w v).reverse
  rwa [List.length_reverse, length_littleEndian] at h

theorem littleEndian_byteswap (w v : ℕ) :
    littleEndian w (byteswap w v) = (littleEndian w v).reverse := by
  have h := littleEndian_ofLittleEndian (littleEndian w v).reverse
  rwa [List.length_reverse, length_littleEndian] at h

/-- Swapping the bytes twice gives the word back. -/
theorem byteswap_byteswap {w v : ℕ} (h : v < 256 ^ w) : byteswap w (byteswap w v) = v := by
  rw [byteswap, littleEndian_byteswap, List.reverse_reverse, ofLittleEndian_littleEndian h]

theorem byteswap_two (v : ℕ) : byteswap 2 v = v % 256 * 256 + v / 256 % 256 := by
  simp only [byteswap, littleEndian, List.reverse_cons, List.reverse_nil, List.nil_append,
    List.singleton_append, ofLittleEndian, UInt8.toNat_ofNat']
  omega

/-! ### Bits -/

/-- Bit `i` of a word is bit `i % 8` of its byte `i / 8`. -/
theorem testBit_ofLittleEndian (bs : List UInt8) (i : ℕ) :
    (ofLittleEndian bs).testBit i = (bs.getD (i / 8) 0).toNat.testBit (i % 8) := by
  induction bs generalizing i with
  | nil => simp [ofLittleEndian]
  | cons b bs ih =>
    have hb : b.toNat < 2 ^ 8 := b.toNat_lt
    have hsplit : ofLittleEndian (b :: bs) = 2 ^ 8 * ofLittleEndian bs + b.toNat := by
      rw [ofLittleEndian]
      omega
    rw [hsplit, Nat.testBit_two_pow_mul_add _ hb]
    split_ifs with hi
    · rw [Nat.div_eq_of_lt hi, Nat.mod_eq_of_lt hi]
      rfl
    · obtain ⟨j, rfl⟩ : ∃ j, i = j + 8 := ⟨i - 8, by omega⟩
      rw [Nat.add_sub_cancel, ih, Nat.add_div_right j (by decide), Nat.add_mod_right]
      rfl

theorem getD_littleEndian {w v k : ℕ} (hk : k < w) :
    ((littleEndian w v).getD k 0).toNat = v / 256 ^ k % 256 := by
  induction w generalizing v k with
  | zero => omega
  | succ w ih =>
    rw [littleEndian]
    cases k with
    | zero =>
      rw [List.getD_cons_zero, UInt8.toNat_ofNat', Nat.pow_zero, Nat.div_one]
      omega
    | succ k => rw [List.getD_cons_succ, ih (by omega), Nat.div_div_eq_div_mul, Nat.pow_succ']

/-- A bit keeps its place in its byte, and the byte goes to the other side. -/
theorem testBit_byteswap {w v i : ℕ} (hi : i < 8 * w) :
    (byteswap w v).testBit i = v.testBit (8 * (w - 1 - i / 8) + i % 8) := by
  have hk : w - 1 - i / 8 < w := by omega
  have hrev : (littleEndian w v).reverse.getD (i / 8) 0 =
      (littleEndian w v).getD (w - 1 - i / 8) 0 := by
    rw [List.getD_eq_getElem?_getD, List.getD_eq_getElem?_getD,
      List.getElem?_reverse (by rw [length_littleEndian]; omega), length_littleEndian]
  have hpow : (256 : ℕ) ^ (w - 1 - i / 8) = 2 ^ (8 * (w - 1 - i / 8)) := by
    rw [Nat.pow_mul]
  have hmod : i % 8 < 8 := Nat.mod_lt i (by decide)
  rw [byteswap, testBit_ofLittleEndian, hrev, getD_littleEndian hk, hpow,
    show 256 = 2 ^ 8 from rfl, Nat.testBit_mod_two_pow, Nat.testBit_div_two_pow]
  simp [hmod, Nat.add_comm]

/-! ### Bytes -/

/-- What holds of the 256 bytes one after another. -/
theorem forall_byte {p : UInt8 → Prop} (h : ∀ n : Fin 256, p (UInt8.ofNat n)) (c : UInt8) :
    p c := by
  have hc := h ⟨c.toNat, c.toNat_lt⟩
  rwa [UInt8.ofNat_toNat] at hc

end Muhui
