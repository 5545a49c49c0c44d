/-
  Numbers cut down to a machine word of `w` bits.

  `signed w x` and `unsigned w x` are what a signed and an unsigned word keep of an integer `x`;
  each is `x` itself exactly when `x` is in its range.
-/
import Mathlib.Data.Int.Basic
import Mathlib.Tactic.Positivity
import Mathlib.Tactic.Ring

namespace Muhui

/-- What a signed word of `w` bits keeps of a number. -/
def signed (w : ℕ) (x : ℤ) : ℤ := x.bmod (2 ^ w)

/-- What an unsigned word of `w` bits keeps of a number. -/
def unsigned (w : ℕ) (x : ℤ) : ℕ := (x % 2 ^ w).toNat

variable {w : ℕ} {x : ℤ}

theorem signed_bounds (hw : w ≠ 0) : -2 ^ (w - 1) ≤ signed w x ∧ signed w x < 2 ^ (w - 1) := by
  obtain ⟨k, rfl⟩ := Nat.exists_eq_succ_of_ne_zero hw
  have hpos : 0 < 2 ^ (k + 1) := Nat.two_pow_pos _
  have hlow := @Int.le_bmod x _ hpos
  have hhigh := @Int.bmod_lt x _ hpos
  have hpow : ((2 ^ (k + 1) : ℕ) : ℤ) = 2 * 2 ^ k := by
    push_cast
    ring
  rw [hpow] at hlow hhigh
  unfold signed
  simp only [Nat.succ_eq_add_one, Nat.add_sub_cancel]
  generalize (2 : ℤ) ^ k = b at hlow hhigh ⊢
  omega

theorem signed_eq_iff (hw : w ≠ 0) :
    signed w x = x ↔ -2 ^ (w - 1) ≤ x ∧ x < 2 ^ (w - 1) := by
  constructor
  · intro h
    rw [← h]
    exact signed_bounds hw
  · rintro ⟨hlow, hhigh⟩
    obtain ⟨k, rfl⟩ := Nat.exists_eq_succ_of_ne_zero hw
    have hpow : ((2 ^ (k + 1) : ℕ) : ℤ) = 2 * 2 ^ k := by
      push_cast
      ring
    simp only [Nat.succ_eq_add_one, Nat.add_sub_cancel] at hlow hhigh
    apply Int.bmod_eq_of_le_mul_two
    · rw [hpow]
      omega
    · rw [hpow]
      omega

/-- A word that has the same residue. -/
theorem signed_emod : signed w x % 2 ^ w = x % 2 ^ w := by
  have hmod := @Int.bmod_emod x (2 ^ w)
  push_cast at hmod
  exact hmod

theorem natCast_unsigned : (unsigned w x : ℤ) = x % 2 ^ w :=
  Int.toNat_of_nonneg (Int.emod_nonneg x (by positivity))

/-- An unsigned word keeps what a signed one does. -/
theorem signed_unsigned : signed w (unsigned w x) = signed w x := by
  have hmod := @Int.emod_bmod x (2 ^ w)
  push_cast at hmod
  rw [natCast_unsigned, signed, hmod, signed]

theorem unsigned_eq_iff : (unsigned w x : ℤ) = x ↔ 0 ≤ x ∧ x < 2 ^ w := by
  have hpos : (0 : ℤ) < 2 ^ w := by positivity
  rw [natCast_unsigned]
  constructor
  · intro h
    rw [← h]
    exact ⟨Int.emod_nonneg x hpos.ne', Int.emod_lt_of_pos x hpos⟩
  · rintro ⟨hlow, hhigh⟩
    exact Int.emod_eq_of_lt hlow hhigh

end Muhui
