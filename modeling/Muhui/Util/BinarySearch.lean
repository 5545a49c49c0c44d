/-
  `BinarySearch` (`util.h`).

  The bounds of the search and the index in their middle are of type `int`, and the sum of the
  bounds has to be one too.  As long as it is, the search finds an equivalent element or the place
  for one (`right_loop`).  The sum overflows in front of an access at `2 ^ 30` or above, which the
  search comes to by going right every time (`binarySearch_eq`).

  A signed overflow, which has no value, and an access outside the array are errors.
-/
import Muhui.Container.SortedList
import Mathlib.Data.Int.Basic
import Mathlib.Tactic.Ring

namespace Muhui.Util

open Container

inductive Fault
  | overflow
  | outside
  deriving DecidableEq

/-- The result `x` of an operation on `int`s. -/
def int (x : ℤ) : Except Fault ℤ :=
  if -2 ^ 31 ≤ x ∧ x < 2 ^ 31 then .ok x else .error .overflow

variable {α : Type*}

/-- `arr[m]` -/
def access (arr : List α) (m : ℤ) : Except Fault α :=
  if 0 ≤ m then
    match arr[m.toNat]? with
    | some a => .ok a
    | none => .error .outside
  else .error .outside

/-- How the body of the loop ends: it returns, or there are new bounds. -/
inductive Pass
  | returns (m : ℤ)
  | bounds (first last : ℤ)
  deriving DecidableEq

variable [LT α] [DecidableLT α]

/-- The body of the loop, with the bounds `begin` and `end`. -/
def pass (arr : List α) (v : α) (first last : ℤ) : Except Fault Pass :=
  (int (first + last)).bind fun sum =>
    let m := sum.tdiv 2
    (access arr m).bind fun a =>
      if v < a then (int (m - 1)).map fun last => .bounds first last
      else if a < v then (int (m + 1)).map fun first => .bounds first last
      else .ok (.returns m)

theorem bind_eq_ok {β γ : Type*} {x : Except Fault β} {f : β → Except Fault γ} {c : γ} :
    x.bind f = .ok c ↔ ∃ b, x = .ok b ∧ f b = .ok c := by
  cases x <;> simp [Except.bind]

theorem map_eq_ok {β γ : Type*} {x : Except Fault β} {f : β → γ} {c : γ} :
    x.map f = .ok c ↔ ∃ b, x = .ok b ∧ f b = c := by
  cases x <;> simp [Except.map]

theorem int_eq_ok {x y : ℤ} : int x = .ok y ↔ (-2 ^ 31 ≤ x ∧ x < 2 ^ 31) ∧ x = y := by
  unfold int
  split_ifs with h
  · rw [Except.ok.injEq]
    exact (and_iff_right h).symm
  · exact iff_of_false (fun hok => by cases hok) fun hand => h hand.1

theorem le_middle {first last : ℤ} (h : first ≤ last) :
    first ≤ (first + last).tdiv 2 ∧ (first + last).tdiv 2 ≤ last := by
  rw [Int.tdiv_eq_ediv]
  split_ifs
  · omega
  · rw [Int.sign_eq_one_of_pos (by decide)]
    omega

/-- The new bounds are closer together. -/
theorem pass_bounds {arr : List α} {v : α} {first last first' last' : ℤ} (hle : first ≤ last)
    (h : pass arr v first last = .ok (.bounds first' last')) : last' - first' < last - first := by
  obtain ⟨sum, hsum, h⟩ := bind_eq_ok.mp h
  obtain ⟨-, rfl⟩ := int_eq_ok.mp hsum
  obtain ⟨a, -, h⟩ := bind_eq_ok.mp h
  have hmiddle := le_middle hle
  split_ifs at h
  · obtain ⟨m, hm, hbounds⟩ := map_eq_ok.mp h
    obtain ⟨-, rfl⟩ := int_eq_ok.mp hm
    cases hbounds
    omega
  · obtain ⟨m, hm, hbounds⟩ := map_eq_ok.mp h
    obtain ⟨-, rfl⟩ := int_eq_ok.mp hm
    cases hbounds
    omega
  · cases h

/-- The loop, and what is returned behind it. -/
def loop (arr : List α) (v : α) (first last : ℤ) : Except Fault ℤ :=
  if first ≤ last then
    match _h : pass arr v first last with
    | .error fault => .error fault
    | .ok (.returns m) => .ok m
    | .ok (.bounds first' last') => loop arr v first' last'
  else (int (-first)).bind fun x => int (x - 1)
termination_by (last + 1 - first).toNat
decreasing_by
  have := pass_bounds ‹_› _h
  omega

def binarySearch (arr : List α) (length : ℤ) (v : α) : Except Fault ℤ :=
  (int (length - 1)).bind fun last => loop arr v 0 last

/-! ### The promise -/

/-- What the search promises of its result, which is not an error then: the place of an equivalent
element, or `-k - 1` for the number `k` of elements that are less. -/
structure Right (arr : List α) (v : α) (r : Except Fault ℤ) : Prop where
  found : (∃ a ∈ arr, Equivalent a v) →
    ∃ m : ℕ, r = .ok m ∧ ∃ a, arr[m]? = some a ∧ Equivalent a v
  missing : (∀ a ∈ arr, ¬ Equivalent a v) → r = .ok (-below arr v - 1)

/-- The `i`th place that the search looks at in an array of `n` elements when it goes right every
time. -/
def place (n i : ℕ) : ℕ := n - 1 - n / 2 ^ (i + 1)

/-- The search does not go right at one of these places below `2 ^ 30`. -/
def Turns (arr : List α) (v : α) : Prop :=
  ∃ i a, place arr.length i < 2 ^ 30 ∧ arr[place arr.length i]? = some a ∧ ¬ a < v

variable {arr : List α} {v : α} {first last : ℤ}

theorem not_right_error (fault : Fault) : ¬ Right arr v (.error fault) := by
  intro h
  by_cases hex : ∃ a ∈ arr, Equivalent a v
  · obtain ⟨m, hm, -⟩ := h.found hex
    cases hm
  · have := h.missing fun a ha hequiv => hex ⟨a, ha, hequiv⟩
    cases this

/-! ### A pass -/

theorem int_of_bounds {x : ℤ} (hlow : -2 ^ 31 ≤ x) (hhigh : x < 2 ^ 31) : int x = .ok x :=
  if_pos ⟨hlow, hhigh⟩

omit [LT α] [DecidableLT α] in
theorem access_eq {m : ℕ} (hm : m < arr.length) : access arr m = .ok arr[m] := by
  unfold access
  rw [if_pos (Int.natCast_nonneg m), Int.toNat_natCast, List.getElem?_eq_getElem hm]

theorem pass_eq_overflow (h : 2 ^ 31 ≤ first + last) :
    pass arr v first last = .error .overflow := by
  unfold pass
  rw [int, if_neg fun hand => not_lt.mpr h hand.2]
  rfl

/-- A pass that looks at the element at `m`. -/
theorem pass_eq {m : ℕ} (hm : m < arr.length) (hsmall : m < 2 ^ 30) (h0 : 0 ≤ first + last)
    (hmiddle : (first + last) / 2 = m) :
    pass arr v first last =
      .ok (if v < arr[m] then .bounds first (m - 1)
        else if arr[m] < v then .bounds (m + 1) last
        else .returns m) := by
  unfold pass
  rw [int_of_bounds (by omega) (by omega)]
  simp only [Except.bind]
  rw [Int.tdiv_eq_ediv_of_nonneg h0, hmiddle, access_eq hm]
  simp only
  rw [int_of_bounds (by omega) (by omega), int_of_bounds (by omega) (by omega)]
  split_ifs
  · rfl
  · rfl
  · rfl

theorem loop_of_lt (h : last < first) (h0 : 0 ≤ first) (hfirst : first < 2 ^ 31) :
    loop arr v first last = .ok (-first - 1) := by
  rw [loop, if_neg (not_le.mpr h), int_of_bounds (by omega) (by omega)]
  exact int_of_bounds (by omega) (by omega)

theorem loop_of_le (h : first ≤ last) :
    loop arr v first last = (pass arr v first last).bind fun
      | .returns m => .ok m
      | .bounds first' last' => loop arr v first' last' := by
  rw [loop, if_pos h]
  split
  · next hpass =>
    rw [hpass]
    rfl
  · next hpass =>
    rw [hpass]
    rfl
  · next hpass =>
    rw [hpass]
    rfl

/-! ### The bounds -/

/-- What is less than `v` is not behind the bounds, and what is greater not before them. -/
structure Bounds (arr : List α) (v : α) (first last : ℤ) : Prop where
  nonneg : 0 ≤ first
  first_le : first ≤ below arr v
  le_last : upTo arr v ≤ last + 1
  last_lt : last < arr.length

theorem bounds_init (arr : List α) (v : α) : Bounds arr v 0 (arr.length - 1) where
  nonneg := le_rfl
  first_le := Int.natCast_nonneg _
  le_last := by
    rw [sub_add_cancel]
    exact_mod_cast List.countP_le_length
  last_lt := by omega

variable [IsStrictWeakOrder α (· < ·)]

/-- The three ways of a pass that looks at the element at `m`. -/
theorem Bounds.pass (h : Bounds arr v first last) (hs : Sorted arr) (hle : first ≤ last) {m : ℕ}
    (hmiddle : (first + last) / 2 = m) (hsmall : m < 2 ^ 30) :
    below arr v ≤ m ∧ Bounds arr v first (m - 1) ∧
        pass arr v first last = .ok (.bounds first (m - 1)) ∨
      m < below arr v ∧ Bounds arr v (m + 1) last ∧
        pass arr v first last = .ok (.bounds (m + 1) last) ∨
      below arr v ≤ m ∧ m < upTo arr v ∧ pass arr v first last = .ok (.returns m) := by
  have hm : m < arr.length := by
    have := h.nonneg
    have := h.last_lt
    omega
  have hpass := pass_eq (v := v) hm hsmall (by have := h.nonneg; omega) hmiddle
  have hcounts := below_le_upTo arr v
  by_cases hleft : v < arr[m]
  · left
    rw [if_pos hleft] at hpass
    rw [lt_getElem_iff hs v hm] at hleft
    refine ⟨hcounts.trans hleft, ⟨h.nonneg, h.first_le, by omega, by omega⟩, hpass⟩
  · rw [if_neg hleft] at hpass
    rw [lt_getElem_iff hs v hm, not_le] at hleft
    right
    by_cases hright : arr[m] < v
    · left
      rw [if_pos hright] at hpass
      rw [getElem_lt_iff hs v hm] at hright
      have := h.nonneg
      exact ⟨hright, ⟨by omega, by omega, h.le_last, h.last_lt⟩, hpass⟩
    · right
      rw [if_neg hright] at hpass
      rw [getElem_lt_iff hs v hm, not_lt] at hright
      exact ⟨hright, hleft, hpass⟩

theorem right_returns (hs : Sorted arr) {m : ℕ} (hbelow : below arr v ≤ m)
    (hupTo : m < upTo arr v) : Right arr v (.ok m) := by
  have hm : m < arr.length := Nat.lt_of_lt_of_le hupTo List.countP_le_length
  have hequiv : Equivalent arr[m] v := (equivalent_getElem_iff hs v hm).mpr ⟨hbelow, hupTo⟩
  constructor
  · intro _
    exact ⟨m, rfl, arr[m], List.getElem?_eq_getElem hm, hequiv⟩
  · intro hnone
    exact absurd hequiv (hnone _ (List.getElem_mem hm))

theorem right_missing (hs : Sorted arr) (h : upTo arr v ≤ below arr v) :
    Right arr v (.ok (-below arr v - 1)) := by
  constructor
  · intro hex
    exact absurd ((exists_equivalent_iff hs v).mp hex) (not_lt.mpr h)
  · intro _
    rfl

/-- The loop from bounds between which there is no sum that overflows. -/
theorem right_loop (hs : Sorted arr) (h : Bounds arr v first last) (hlast : last < 2 ^ 30) :
    Right arr v (loop arr v first last) := by
  induction hn : (last + 1 - first).toNat using Nat.strong_induction_on
    generalizing first last with
  | _ n ih =>
    have h0 := h.nonneg
    by_cases hle : first ≤ last
    · rw [loop_of_le hle]
      obtain ⟨m, hm⟩ := Int.eq_ofNat_of_zero_le (show 0 ≤ (first + last) / 2 by omega)
      rcases h.pass hs hle hm (by omega) with
        ⟨-, hbounds, hpass⟩ | ⟨-, hbounds, hpass⟩ | ⟨hbelow, hupTo, hpass⟩
      · rw [hpass]
        exact ih _ (by omega) hbounds (by omega) rfl
      · rw [hpass]
        exact ih _ (by omega) hbounds hlast rfl
      · rw [hpass]
        exact right_returns hs hbelow hupTo
    · -- the counts meet between the bounds
      have hcounts := below_le_upTo arr v
      have hfirst := h.first_le
      have hupTo := h.le_last
      rw [loop_of_lt (not_le.mp hle) h0 (by omega), show first = below arr v by omega]
      exact right_missing hs (by omega)

/-! ### Going right -/

theorem turns_iff (hs : Sorted arr) (h0 : 0 < arr.length) :
    Turns arr v ↔ ∃ i, place arr.length i < 2 ^ 30 ∧ below arr v ≤ place arr.length i := by
  have hplace : ∀ i, place arr.length i < arr.length := by
    intro i
    exact Nat.lt_of_le_of_lt (Nat.sub_le _ _) (Nat.sub_lt h0 one_pos)
  constructor
  · rintro ⟨i, a, hsmall, ha, hav⟩
    rw [List.getElem?_eq_getElem (hplace i), Option.some.injEq] at ha
    rw [← ha, getElem_lt_iff hs v (hplace i), not_lt] at hav
    exact ⟨i, hsmall, hav⟩
  · rintro ⟨i, hsmall, hbelow⟩
    refine ⟨i, _, hsmall, List.getElem?_eq_getElem (hplace i), ?_⟩
    rw [getElem_lt_iff hs v (hplace i), not_lt]
    exact hbelow

/-- The places go up. -/
theorem place_mono (n : ℕ) {i j : ℕ} (h : i ≤ j) : place n i ≤ place n j := by
  have : n / 2 ^ (j + 1) ≤ n / 2 ^ (i + 1) :=
    Nat.div_le_div_left (Nat.pow_le_pow_right (by decide) (by omega)) (Nat.two_pow_pos _)
  unfold place
  omega

/-- The loop after it has gone right `i` times, and what it comes to: a sum that overflows, or the
first place at which it does not go right. -/
theorem loop_right (hs : Sorted arr) (hbig : 2 ^ 30 < arr.length) {i d : ℕ}
    (hd : arr.length / 2 ^ i = d) (hsmall : arr.length - d ≤ 2 ^ 30)
    (hbelow : arr.length - d ≤ below arr v) :
    loop arr v (arr.length - d : ℕ) (arr.length - 1) = .error .overflow ∧
        (∀ j ≥ i, place arr.length j < 2 ^ 30 → place arr.length j < below arr v) ∨
      Right arr v (loop arr v (arr.length - d : ℕ) (arr.length - 1)) ∧
        ∃ j, place arr.length j < 2 ^ 30 ∧ below arr v ≤ place arr.length j := by
  induction d using Nat.strong_induction_on generalizing i with
  | _ d ih =>
    have hdn : d ≤ arr.length := hd ▸ Nat.div_le_self _ _
    have hhalf : arr.length / 2 ^ (i + 1) = d / 2 := by
      rw [pow_succ, ← Nat.div_div_eq_div_mul, hd]
    have hplace : place arr.length i = arr.length - 1 - d / 2 := by rw [place, hhalf]
    have hbounds : Bounds arr v (arr.length - d : ℕ) (arr.length - 1) :=
      ⟨Int.natCast_nonneg _, by omega, (bounds_init arr v).le_last, (bounds_init arr v).last_lt⟩
    rw [loop_of_le (by omega)]
    by_cases hover : 2 ^ 30 ≤ place arr.length i
    · left
      rw [pass_eq_overflow (by omega)]
      refine ⟨rfl, ?_⟩
      intro j hj hlt
      -- no later place is below `2 ^ 30` either
      exact absurd (hover.trans (place_mono arr.length hj)) (not_le.mpr hlt)
    · rcases hbounds.pass hs (by omega) (m := place arr.length i) (by omega) (by omega) with
        ⟨hturn, hleft, hpass⟩ | ⟨hright, -, hpass⟩ | ⟨hturn, hupTo, hpass⟩
      · -- the search turns left, and stays below `2 ^ 30` from there on
        right
        rw [hpass]
        exact ⟨right_loop hs hleft (by omega), i, by omega, hturn⟩
      · -- the search goes right again, and half of the elements are left
        rw [hpass]
        have hfirst : (place arr.length i : ℤ) + 1 = (arr.length - d / 2 : ℕ) := by omega
        rcases ih (d / 2) (by omega) hhalf (by omega) (by omega) with ⟨hover, hall⟩ | hright'
        · left
          refine ⟨by rw [← hover, ← hfirst]; rfl, ?_⟩
          intro j hj hlt
          rcases eq_or_lt_of_le hj with rfl | hj
          · exact hright
          · exact hall j hj hlt
        · right
          rw [← hfirst] at hright'
          exact hright'
      · right
        rw [hpass]
        exact ⟨right_returns hs hturn hupTo, i, by omega, hturn⟩

/-! ### The search -/

/-- The search keeps its promise or comes to a sum that overflows. -/
theorem binarySearch_eq (hs : Sorted arr) (hint : arr.length < 2 ^ 31) (v : α) :
    (arr.length ≤ 2 ^ 30 ∨ Turns arr v) ∧ Right arr v (binarySearch arr arr.length v) ∨
      ¬ (arr.length ≤ 2 ^ 30 ∨ Turns arr v) ∧
        binarySearch arr arr.length v = .error .overflow := by
  have hloop : binarySearch arr arr.length v = loop arr v 0 (arr.length - 1) := by
    unfold binarySearch
    rw [int_of_bounds (by omega) (by omega)]
    rfl
  rw [hloop]
  by_cases hbig : arr.length ≤ 2 ^ 30
  · left
    exact ⟨.inl hbig, right_loop hs (bounds_init arr v) (by omega)⟩
  · rw [or_iff_right hbig, turns_iff hs (by omega)]
    rcases loop_right (i := 0) (d := arr.length) hs (not_le.mp hbig) (by simp) (by omega)
      (by omega) with ⟨hover, hall⟩ | ⟨hright, hturn⟩
    · right
      refine ⟨?_, by simpa using hover⟩
      rintro ⟨i, hsmall, hbelow⟩
      exact not_lt.mpr hbelow (hall i (Nat.zero_le i) hsmall)
    · left
      refine ⟨hturn, by simpa using hright⟩

/-- **Search.** In an array that is sorted by `<` the search returns the place of an equivalent
element or the one encoded for it, with every access inside the array and every `int` in its range,
exactly when the array has `2 ^ 30` elements at most, or the search turns left or returns at one of
the first places it looks at, which lie below `2 ^ 30`. -/
theorem search_right_iff (hs : Sorted arr) (hint : arr.length < 2 ^ 31) (v : α) :
    Right arr v (binarySearch arr arr.length v) ↔ arr.length ≤ 2 ^ 30 ∨ Turns arr v := by
  rcases binarySearch_eq hs hint v with ⟨hcond, hright⟩ | ⟨hcond, hover⟩
  · exact iff_of_true hright hcond
  · rw [hover]
    exact iff_of_false (not_right_error _) hcond

theorem search_right_iff_four :
    Right [1, 3, 3, 5] 4 (binarySearch [1, 3, 3, 5] 4 4) ↔
      [1, 3, 3, 5].length ≤ 2 ^ 30 ∨ Turns [1, 3, 3, 5] 4 :=
  search_right_iff (show Sorted [1, 3, 3, 5] by unfold Sorted; decide) (by decide) 4

/-- In an array of more than `2 ^ 30` elements that are all less, the sum of the bounds
overflows. -/
theorem overflow_of_all_lt (hs : Sorted arr) (hint : arr.length < 2 ^ 31)
    (hbig : 2 ^ 30 < arr.length) (hall : ∀ a ∈ arr, a < v) :
    binarySearch arr arr.length v = .error .overflow := by
  rcases binarySearch_eq hs hint v with ⟨hcond, -⟩ | ⟨-, hover⟩
  · rcases hcond with hsmall | ⟨i, a, -, ha, hav⟩
    · exact absurd hsmall (not_le.mpr hbig)
    · exact absurd (hall a (List.mem_of_getElem? ha)) hav
  · exact hover

/-- An array of zeros, searched for a one. -/
theorem not_right_of_zeros :
    Sorted (List.replicate (2 ^ 30 + 1) 0) ∧ (List.replicate (2 ^ 30 + 1) 0).length < 2 ^ 31 ∧
      ¬ Right (List.replicate (2 ^ 30 + 1) 0) 1
        (binarySearch (List.replicate (2 ^ 30 + 1) 0) (2 ^ 30 + 1) 1) := by
  have hs : Sorted (List.replicate (2 ^ 30 + 1) 0) :=
    List.pairwise_replicate.mpr (.inr (lt_irrefl 0))
  have hlength : (List.replicate (2 ^ 30 + 1) 0).length = 2 ^ 30 + 1 := List.length_replicate
  have hover := overflow_of_all_lt (v := 1) hs (by omega) (by omega) fun a ha => by
    rw [List.eq_of_mem_replicate ha]
    exact one_pos
  rw [hlength] at hover
  refine ⟨hs, by omega, ?_⟩
  rw [show ((2 ^ 30 + 1 : ℕ) : ℤ) = 2 ^ 30 + 1 by norm_num] at hover
  rw [hover]
  exact not_right_error _

end Muhui.Util
