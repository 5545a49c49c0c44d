/-
  Words split after their first `p` bits.

  `hostMask w p` has its first `p` bits clear and the others set, `netMask w p` is its complement.
  The first bit of a word is its highest.  A word between its two parts: `a &&& m` is the least and
  `a ||| m` the greatest word that agrees with `a` off the mask.
-/
import Mathlib.Data.BitVec

namespace Muhui

variable {w p i : ℕ}

/-- The word whose first `p` bits are zero and whose other bits are one. -/
def hostMask (w p : ℕ) : BitVec w := BitVec.allOnes w >>> p

/-- The word whose first `p` bits are one and whose other bits are zero. -/
def netMask (w p : ℕ) : BitVec w := ~~~hostMask w p

theorem getMsbD_hostMask : (hostMask w p).getMsbD i = decide (p ≤ i ∧ i < w) := by
  unfold hostMask
  rw [BitVec.getMsbD_eq_getLsbD, BitVec.getLsbD_ushiftRight, BitVec.getLsbD_allOnes]
  by_cases hi : i < w
  · simp only [hi, decide_true, Bool.true_and, and_true]
    congr 1
    ext
    omega
  · simp [hi]

theorem getMsbD_netMask : (netMask w p).getMsbD i = decide (i < p ∧ i < w) := by
  unfold netMask
  rw [BitVec.getMsbD_not, getMsbD_hostMask, Bool.eq_iff_iff]
  simp only [Bool.and_eq_true, decide_eq_true_eq, Bool.not_eq_true', decide_eq_false_iff_not]
  omega

@[simp] theorem netMask_zero : netMask w 0 = 0#w := by simp [netMask, hostMask]

theorem netMask_of_le (hp : w ≤ p) : netMask w p = BitVec.allOnes w := by
  apply BitVec.eq_of_getMsbD_eq
  intro i hi
  rw [getMsbD_netMask, BitVec.getMsbD_allOnes]
  simp only [hi, and_true, decide_true, decide_eq_true_eq]
  omega

/-- The bits of a string of words, where every word has its share of the first `p` bits. -/
theorem getMsbD_netMask_div (hw : 0 < w) :
    (netMask w (p - w * (i / w))).getMsbD (i % w) = decide (i < p) := by
  rw [getMsbD_netMask]
  congr 1
  have hsplit := Nat.div_add_mod i w
  have hmod := Nat.mod_lt i hw
  ext
  omega

/-- A word that both a mask and its complement cut to the same is zero. -/
theorem and_eq_and_not_iff {a m : BitVec w} : a &&& m = a &&& ~~~m ↔ a = 0#w := by
  constructor
  · intro h
    apply BitVec.eq_of_getLsbD_eq
    intro i hi
    have hbit := congrArg (·.getLsbD i) h
    simp only [BitVec.getLsbD_and, BitVec.getLsbD_not, hi, decide_true, Bool.true_and] at hbit
    cases ha : a.getLsbD i
    · exact BitVec.getLsbD_zero.symm
    · cases hm : m.getLsbD i <;> simp [ha, hm] at hbit
  · rintro rfl
    rw [BitVec.zero_and, BitVec.zero_and]

theorem and_le_left (a m : BitVec w) : a &&& m ≤ a := by
  rw [BitVec.le_def, BitVec.toNat_and]
  exact Nat.and_le_left

theorem left_le_or (a m : BitVec w) : a ≤ a ||| m := by
  rw [BitVec.le_def, BitVec.toNat_or]
  exact Nat.left_le_or

end Muhui
