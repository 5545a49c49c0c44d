/-
  `split` (`hash_util.cc`).

  The limit is counted down and compared with 1 behind each cut, so a limit of 1 is passed by before
  it is looked at, and the counter goes on below 0.  The other limits are respected
  (`splits_iff`).
-/
import Muhui.Text.Search

namespace Muhui.StringUtil

open Search (findOf findOf_spec findOf_eq_none find_singleton)

/-- What `find` gives in one of the two loops: a position of the string, not before `last`. -/
structure Finder (str : List UInt8) where
  find : ℕ → Option ℕ
  bound : ∀ {last pos}, find last = some pos → last ≤ pos ∧ pos < str.length

theorem findOf_bound {set str : List UInt8} {last pos : ℕ} (h : findOf set str last = some pos) :
    last ≤ pos ∧ pos < str.length := by
  obtain ⟨x, c, y, hdrop, rfl, -, -⟩ := findOf_spec h
  have hlength := congrArg List.length hdrop
  rw [List.length_drop, List.length_append, List.length_cons] at hlength
  omega

/-- `str.find(delim, last)` -/
def Finder.ofDelim (str : List UInt8) (delim : UInt8) : Finder str where
  find := Search.find [delim] str
  bound h := findOf_bound ((find_singleton delim str _).symm.trans h)

/-- `str.find_first_of(delims, last)`, where `delims` ends at its first NUL. -/
def Finder.ofDelims (str delims : List UInt8) : Finder str where
  find := findOf (delims.takeWhile (· ≠ 0)) str
  bound := findOf_bound

/-- The loop from `pos = find(last)` on, with the pieces that are still to come. -/
def splitLoop {str : List UInt8} (finder : Finder str) (last : ℕ) (max : UInt64) :
    List (List UInt8) :=
  match _h : finder.find last with
  | none => [str.drop last]
  | some pos =>
    (str.drop last).take (pos - last) ::
      if max - 1 = 1 then [str.drop (pos + 1)] else splitLoop finder (pos + 1) (max - 1)
termination_by str.length - last
decreasing_by
  have hbound := finder.bound _h
  omega

/-- `split` with a character -/
def split (str : List UInt8) (delim : UInt8) (max : UInt64) : List (List UInt8) :=
  if str = [] then [] else splitLoop (Finder.ofDelim str delim) 0 max

/-- `split` with a set -/
def splitOf (str delims : List UInt8) (max : UInt64) : List (List UInt8) :=
  if str = [] then [] else splitLoop (Finder.ofDelims str delims) 0 max

/-- What is expected of the pieces. -/
structure Splits (s : List UInt8) (d : UInt8) (max : UInt64) : Prop where
  ne_nil : split s d max ≠ []
  limit : (split s d max).length ≤ max.toNat
  join : [d].intercalate (split s d max) = s
  all : (split s d max).length < max.toNat → ∀ piece ∈ split s d max, d ∉ piece
  /-- A set with the one character `d`, which no set has when it is NUL. -/
  set : d ≠ 0 → splitOf s [d] max = split s d max

/-! ### The two copies of the loop -/

variable {s : List UInt8} {d : UInt8} {max : UInt64} {last pos : ℕ}

theorem splitLoop_congr {finder finder' : Finder s} (h : finder.find = finder'.find) (last : ℕ)
    (max : UInt64) : splitLoop finder last max = splitLoop finder' last max := by
  cases finder
  cases finder'
  cases h
  rfl

theorem splitOf_singleton (s : List UInt8) (hd : d ≠ 0) (max : UInt64) :
    splitOf s [d] max = split s d max := by
  have hfind : (Finder.ofDelims s [d]).find = (Finder.ofDelim s d).find := by
    ext1 last
    show findOf ([d].takeWhile (· ≠ 0)) s last = Search.find [d] s last
    rw [find_singleton, List.takeWhile_cons_of_pos (by simpa using hd), List.takeWhile_nil]
  unfold splitOf split
  rw [splitLoop_congr hfind]

/-! ### One pass of the loop -/

variable {finder : Finder s}

theorem splitLoop_of_none (h : finder.find last = none) :
    splitLoop finder last max = [s.drop last] := by
  rw [splitLoop]
  split
  · rfl
  · next heq => rw [h] at heq; cases heq

theorem splitLoop_of_some (h : finder.find last = some pos) :
    splitLoop finder last max = (s.drop last).take (pos - last) ::
      if max - 1 = 1 then [s.drop (pos + 1)] else splitLoop finder (pos + 1) (max - 1) := by
  rw [splitLoop]
  split
  · next heq => rw [h] at heq; cases heq
  · next heq =>
    rw [h] at heq
    cases heq
    rfl

theorem splitLoop_ne_nil (finder : Finder s) (last : ℕ) (max : UInt64) :
    splitLoop finder last max ≠ [] := by
  cases h : finder.find last with
  | none => simp [splitLoop_of_none h]
  | some pos => simp [splitLoop_of_some h]

/-- A cut takes the string apart at the first delimiter. -/
theorem ofDelim_find (h : (Finder.ofDelim s d).find last = some pos) :
    ∃ x, s.drop last = x ++ d :: s.drop (pos + 1) ∧ (s.drop last).take (pos - last) = x ∧
      d ∉ x := by
  obtain ⟨x, c, y, hdrop, rfl, hc, hx⟩ := findOf_spec ((find_singleton d s last).symm.trans h)
  obtain rfl := List.mem_singleton.mp hc
  have hy : s.drop (last + x.length + 1) = y := by
    rw [Nat.add_assoc, ← List.drop_drop, hdrop]
    simp
  refine ⟨x, by rw [hdrop, hy], ?_, fun hd => hx _ hd (List.mem_singleton_self _)⟩
  rw [hdrop, Nat.add_sub_cancel_left, List.take_left]

theorem ofDelim_find_none (h : (Finder.ofDelim s d).find last = none) : d ∉ s.drop last :=
  fun hd => findOf_eq_none ((find_singleton d s last).symm.trans h) d hd (List.mem_singleton_self d)

/-! ### The whole loop -/

theorem join_splitLoop (s : List UInt8) (d : UInt8) (last : ℕ) (max : UInt64) :
    [d].intercalate (splitLoop (Finder.ofDelim s d) last max) = s.drop last := by
  fun_induction splitLoop (Finder.ofDelim s d) last max with
  | case1 last max h => exact List.intercalate_singleton
  | case2 last max pos h ih =>
    obtain ⟨x, hdrop, htake, -⟩ := ofDelim_find h
    rw [htake, hdrop]
    split_ifs
    · rw [List.intercalate_cons_cons, List.intercalate_singleton, List.append_assoc]
      rfl
    · rw [List.intercalate_cons_of_ne_nil (splitLoop_ne_nil _ _ _), ih, List.append_assoc]
      rfl

theorem toNat_sub_one (hmax : 2 ≤ max.toNat) : (max - 1).toNat = max.toNat - 1 :=
  UInt64.toNat_sub_of_le max 1 (UInt64.le_iff_toNat_le.mpr (Nat.le_of_succ_le hmax))

/-- The limit that is left for the next pass, when the loop goes on. -/
theorem two_le_sub_one (hmax : 2 ≤ max.toNat) (hone : max - 1 ≠ 1) : 2 ≤ (max - 1).toNat := by
  have hsub := toNat_sub_one hmax
  have hne : (max - 1).toNat ≠ 1 := fun h => hone (UInt64.toNat_inj.mp h)
  omega

theorem length_splitLoop_le (finder : Finder s) (last : ℕ) (max : UInt64) (hmax : 2 ≤ max.toNat) :
    (splitLoop finder last max).length ≤ max.toNat := by
  fun_induction splitLoop finder last max with
  | case1 last max h => exact Nat.le_of_succ_le hmax
  | case2 last max pos h ih =>
    rw [List.length_cons]
    split_ifs with hone
    · exact hmax
    · have hle := ih (two_le_sub_one hmax hone)
      have hsub := toNat_sub_one hmax
      omega

theorem all_splitLoop (s : List UInt8) (d : UInt8) (last : ℕ) (max : UInt64) (hmax : 2 ≤ max.toNat)
    (hlength : (splitLoop (Finder.ofDelim s d) last max).length < max.toNat) :
    ∀ piece ∈ splitLoop (Finder.ofDelim s d) last max, d ∉ piece := by
  fun_induction splitLoop (Finder.ofDelim s d) last max with
  | case1 last max h =>
    rw [List.forall_mem_singleton]
    exact ofDelim_find_none h
  | case2 last max pos h ih =>
    obtain ⟨x, -, htake, hx⟩ := ofDelim_find h
    rw [List.forall_mem_cons, htake]
    rw [List.length_cons] at hlength
    refine ⟨hx, ?_⟩
    split_ifs at hlength ⊢ with hone
    · -- the limit is reached, and it is 2
      have htwo : max.toNat = 2 := by
        have hsub := toNat_sub_one hmax
        rw [hone, UInt64.toNat_one] at hsub
        omega
      rw [htwo] at hlength
      exact absurd hlength (by simp)
    · have hsub := toNat_sub_one hmax
      exact ih (two_le_sub_one hmax hone) (by omega)

/-! ### The limit -/

theorem split_of_notMem (hs : s ≠ []) (hd : d ∉ s) (max : UInt64) : split s d max = [s] := by
  unfold split
  rw [if_neg hs]
  cases h : (Finder.ofDelim s d).find 0 with
  | none => exact splitLoop_of_none h
  | some pos =>
    obtain ⟨x, hdrop, -, -⟩ := ofDelim_find h
    rw [List.drop_zero] at hdrop
    exact absurd (by rw [hdrop]; simp) hd

theorem two_le_length_split (hd : d ∈ s) (max : UInt64) : 2 ≤ (split s d max).length := by
  unfold split
  rw [if_neg (List.ne_nil_of_mem hd)]
  cases h : (Finder.ofDelim s d).find 0 with
  | none => exact absurd hd (ofDelim_find_none h)
  | some pos =>
    rw [splitLoop_of_some h, List.length_cons]
    apply Nat.succ_le_succ
    apply List.length_pos_iff.mpr
    split_ifs
    · exact List.cons_ne_nil _ _
    · exact splitLoop_ne_nil _ _ _

theorem join_split (s : List UInt8) (d : UInt8) (max : UInt64) :
    [d].intercalate (split s d max) = s := by
  unfold split
  split_ifs with hs
  · exact hs.symm
  · exact join_splitLoop s d 0 max

theorem splits_iff (s : List UInt8) (d : UInt8) (max : UInt64) (hs : s ≠ []) (hmax : 1 ≤ max) :
    Splits s d max ↔ max ≠ 1 ∨ d ∉ s := by
  constructor
  · intro h
    by_contra hboth
    obtain ⟨hone, hd⟩ := not_or.mp hboth
    obtain rfl := not_not.mp hone
    have htwo := two_le_length_split (not_not.mp hd) 1
    exact absurd (htwo.trans h.limit) (by decide)
  · intro h
    have hone : 1 ≤ max.toNat := UInt64.le_iff_toNat_le.mp hmax
    by_cases hd : d ∈ s
    · have hne : max.toNat ≠ 1 := by
        intro hmax
        exact h.resolve_right (not_not_intro hd) (UInt64.toNat_inj.mp hmax)
      have htwo : 2 ≤ max.toNat := by omega
      have hloop : split s d max = splitLoop (Finder.ofDelim s d) 0 max := if_neg hs
      refine ⟨?_, ?_, join_split s d max, ?_, fun hd => splitOf_singleton s hd max⟩
      · rw [hloop]
        exact splitLoop_ne_nil _ _ _
      · rw [hloop]
        exact length_splitLoop_le _ _ _ htwo
      · rw [hloop]
        exact all_splitLoop s d 0 max htwo
    · have hsplit := split_of_notMem hs hd max
      refine ⟨?_, ?_, join_split s d max, ?_, fun hd => splitOf_singleton s hd max⟩
      · simp [hsplit]
      · rwa [hsplit]
      · intro _
        rwa [hsplit, List.forall_mem_singleton]

/-- `split("a,b", ',', 2)` -/
theorem splits_iff_comma : Splits [97, 44, 98] 44 2 :=
  (splits_iff [97, 44, 98] 44 2 (by decide) (by decide)).mpr (.inl (by decide))

/-- `split("a,b", ',', 1)` has two pieces. -/
theorem not_splits_of_one :
    split [97, 44, 98] 44 1 = [[97], [98]] ∧ ¬Splits [97, 44, 98] 44 1 := by
  have hsplit : split [97, 44, 98] 44 1 = [[97], [98]] := by decide +kernel
  refine ⟨hsplit, ?_⟩
  intro h
  have hlimit := h.limit
  rw [hsplit] at hlimit
  exact absurd hlimit (by decide)

end Muhui.StringUtil
