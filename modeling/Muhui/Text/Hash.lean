/-
  `murmur3_hash` and `quick_hash` (`hash_util.cc`), each for a buffer and for a C string.

  The overloads of `murmur3_hash` differ in where the length comes from.  `quick_hash` for a buffer
  does not move its pointer and takes the first character as often as there are characters
  (`agree_iff`).  A read outside the memory that the pointer leads to is `none`.
-/
import Muhui.Encoding.Word
import Mathlib.Data.Int.ModEq

namespace Muhui.Hash

/-! ### Memory -/

def byteAt (mem : List UInt8) (pos : ℤ) : Option UInt8 :=
  if 0 ≤ pos then mem[pos.toNat]? else none

/-- `ptr[i]` for a `uint32_t *` -/
def word (mem : List UInt8) (i : ℕ) : Option UInt32 :=
  (byteAt mem (4 * i)).bind fun b₀ => (byteAt mem (4 * i + 1)).bind fun b₁ =>
    (byteAt mem (4 * i + 2)).bind fun b₂ => (byteAt mem (4 * i + 3)).map fun b₃ =>
      UInt32.ofNat (ofLittleEndian [b₀, b₁, b₂, b₃])

def strlen (mem : List UInt8) : Option ℕ :=
  if 0 ∈ mem then some (mem.takeWhile (· ≠ 0)).length else none

/-! ### `murmur3_hash` -/

def rotl (x r : UInt32) : UInt32 := (x <<< r) ||| (x >>> (32 - r))

def fmix32 (h : UInt32) : UInt32 :=
  let h := h ^^^ (h >>> 16)
  let h := h * 0x85ebca6b
  let h := h ^^^ (h >>> 13)
  let h := h * 0xc2b2ae35
  h ^^^ (h >>> 16)

def seed1 : UInt32 := 0xcc9e2d51

def seed2 : UInt32 := 0x1b873593

/-- What is mixed into the hash, `s` for a block or the tail. -/
def mixed (s : UInt32) : UInt32 := rotl (s * seed1) 15 * seed2

/-- The begin blocks, `n` of them from the `i`-th on. -/
def blocks (mem : List UInt8) : ℕ → ℕ → UInt32 → Option UInt32
  | 0, _, h => some h
  | n + 1, i, h =>
    (word mem i).bind fun s => blocks mem n (i + 1) (rotl (h ^^^ mixed s) 13 * 5 + 0xe6546b64)

/-- `case 1`, and in the next two the cases that fall through to it. -/
def case1 (mem : List UInt8) (tail : ℤ) (s : UInt32) : Option UInt32 :=
  (byteAt mem tail).map fun c => s ||| c.toUInt32

def case2 (mem : List UInt8) (tail : ℤ) (s : UInt32) : Option UInt32 :=
  (byteAt mem (tail + 1)).bind fun c => case1 mem tail (s ||| c.toUInt32 <<< 8)

def case3 (mem : List UInt8) (tail : ℤ) (s : UInt32) : Option UInt32 :=
  (byteAt mem (tail + 2)).bind fun c => case2 mem tail (s ||| c.toUInt32 <<< 16)

/-- `switch(len & 3)` -/
def handleTail (mem : List UInt8) (tail : ℤ) (h : UInt32) : ℕ → Option UInt32
  | 3 => (case3 mem tail 0).map fun s => h ^^^ mixed s
  | 2 => (case2 mem tail 0).map fun s => h ^^^ mixed s
  | 1 => (case1 mem tail 0).map fun s => h ^^^ mixed s
  | _ => some h

/-- What both overloads do once they have a length. -/
def murmur3 (mem : List UInt8) (len : Int32) (seed : UInt32) : Option UInt32 :=
  let blk := len.toInt.tdiv 4
  (blocks mem blk.toNat 0 seed).bind fun h =>
    (handleTail mem (blk * 4) h (len.toInt % 4).toNat).map fun h => fmix32 (h ^^^ len.toUInt32)

/-- `murmur3_hash(data, size, seed)`; `none` is a null pointer. -/
def murmur3Hash (data : Option (List UInt8)) (size seed : UInt32) : Option UInt32 :=
  match data with
  | none => some 0
  | some mem => murmur3 mem size.toInt32 seed

/-- `murmur3_hash(str, seed)` -/
def murmur3HashStr (str : Option (List UInt8)) (seed : UInt32) : Option UInt32 :=
  match str with
  | none => some 0
  | some mem => (strlen mem).bind fun len => murmur3 mem (Int32.ofNat len) seed

/-! ### `quick_hash` -/

/-- The value of a `char`, which has a sign. -/
def value (c : UInt8) : ℤ := c.toInt8.toInt

/-- `31 * h + *str`, with the `char` converted to `unsigned int` -/
def quickStep (h : UInt32) (c : UInt8) : UInt32 := 31 * h + UInt32.ofInt (value c)

def quickLoop (h : UInt32) : List UInt8 → Option UInt32
  | [] => none
  | c :: str => if c = 0 then some h else quickLoop (quickStep h c) str

/-- `quick_hash(str)` -/
def quickHashStr (str : List UInt8) : Option UInt32 := quickLoop 0 str

/-- The loop over `n` more characters; the pointer stays where it is. -/
def quickLoopSize (str : List UInt8) : ℕ → UInt32 → Option UInt32
  | 0, h => some h
  | n + 1, h => (byteAt str 0).bind fun c => quickLoopSize str n (quickStep h c)

/-- `quick_hash(tmp, size)` -/
def quickHash (tmp : List UInt8) (size : UInt32) : Option UInt32 :=
  quickLoopSize tmp size.toNat 0

/-! ### Agreement of the overloads -/

/-- The overloads agree on `s.data()` with `s.size()` and on `s.c_str()`. -/
structure Agree (s : List UInt8) : Prop where
  quick : ∃ h, quickHash s (UInt32.ofNat s.length) = some h ∧ quickHashStr (s ++ [0]) = some h
  murmur3 : ∀ seed, ∃ h, murmur3Hash (some s) (UInt32.ofNat s.length) seed = some h ∧
    murmur3HashStr (some (s ++ [0])) seed = some h

/-- The number with the digits `ds` to the base 31. -/
def weighted : List ℤ → ℤ
  | [] => 0
  | d :: ds => 31 ^ ds.length * d + weighted ds

/-! ### Reads inside a string -/

variable {s rest : List UInt8} {h : UInt32}

/-- A read inside the string gives the same byte whatever comes behind it. -/
theorem byteAt_append (pos : ℤ) (hpos : 0 ≤ pos) (hlt : pos < s.length) :
    ∃ c, ∀ rest, byteAt (s ++ rest) pos = some c := by
  have hlt' : pos.toNat < s.length := by omega
  refine ⟨s[pos.toNat], fun rest => ?_⟩
  unfold byteAt
  rw [if_pos hpos, List.getElem?_append_left hlt', List.getElem?_eq_getElem hlt']

theorem word_append {i : ℕ} (hi : 4 * i + 3 < s.length) :
    ∃ v, ∀ rest, word (s ++ rest) i = some v := by
  obtain ⟨b₀, h₀⟩ := byteAt_append (s := s) (4 * i) (by omega) (by omega)
  obtain ⟨b₁, h₁⟩ := byteAt_append (s := s) (4 * i + 1) (by omega) (by omega)
  obtain ⟨b₂, h₂⟩ := byteAt_append (s := s) (4 * i + 2) (by omega) (by omega)
  obtain ⟨b₃, h₃⟩ := byteAt_append (s := s) (4 * i + 3) (by omega) (by omega)
  refine ⟨UInt32.ofNat (ofLittleEndian [b₀, b₁, b₂, b₃]), fun rest => ?_⟩
  rw [word, h₀, h₁, h₂, h₃]
  rfl

theorem blocks_append (n i : ℕ) (h : UInt32) (hn : 4 * (i + n) ≤ s.length) :
    ∃ h', ∀ rest, blocks (s ++ rest) n i h = some h' := by
  induction n generalizing i h with
  | zero => exact ⟨h, fun _ => rfl⟩
  | succ n ih =>
    obtain ⟨v, hv⟩ := word_append (s := s) (i := i) (by omega)
    obtain ⟨h', hh'⟩ := ih (i + 1) (rotl (h ^^^ mixed v) 13 * 5 + 0xe6546b64) (by omega)
    refine ⟨h', fun rest => ?_⟩
    rw [blocks, hv, Option.bind_some, hh']

/-- A byte of the tail is inside the string, and the cases behind it give the same for every
rest. -/
theorem fallthrough_append (next : List UInt8 → UInt32 → Option UInt32) (pos : ℤ)
    (shift v : UInt32) (hpos : 0 ≤ pos) (hlt : pos < s.length)
    (hnext : ∀ v, ∃ v', ∀ rest, next (s ++ rest) v = some v') :
    ∃ v', ∀ rest, ((byteAt (s ++ rest) pos).bind fun c =>
      next (s ++ rest) (v ||| c.toUInt32 <<< shift)) = some v' := by
  obtain ⟨c, hc⟩ := byteAt_append (s := s) pos hpos hlt
  obtain ⟨v', hv'⟩ := hnext (v ||| c.toUInt32 <<< shift)
  refine ⟨v', fun rest => ?_⟩
  rw [hc, Option.bind_some, hv']

theorem case1_append {tail : ℤ} (v : UInt32) (htail : 0 ≤ tail) (hn : tail + 1 ≤ s.length) :
    ∃ v', ∀ rest, case1 (s ++ rest) tail v = some v' := by
  obtain ⟨c, hc⟩ := byteAt_append (s := s) tail htail (by omega)
  refine ⟨v ||| c.toUInt32, fun rest => ?_⟩
  rw [case1, hc, Option.map_some]

theorem case2_append {tail : ℤ} (v : UInt32) (htail : 0 ≤ tail) (hn : tail + 2 ≤ s.length) :
    ∃ v', ∀ rest, case2 (s ++ rest) tail v = some v' :=
  fallthrough_append (case1 · tail) (tail + 1) 8 v (by omega) (by omega) fun v =>
    case1_append v htail (by omega)

theorem case3_append {tail : ℤ} (v : UInt32) (htail : 0 ≤ tail) (hn : tail + 3 ≤ s.length) :
    ∃ v', ∀ rest, case3 (s ++ rest) tail v = some v' :=
  fallthrough_append (case2 · tail) (tail + 2) 16 v (by omega) (by omega) fun v =>
    case2_append v htail (by omega)

theorem handleTail_append (tail : ℤ) (n : ℕ) (h : UInt32) (htail : 0 ≤ tail)
    (hn : tail + n ≤ s.length) : ∃ h', ∀ rest, handleTail (s ++ rest) tail h n = some h' := by
  match n with
  | 0 | _ + 4 => exact ⟨h, fun _ => rfl⟩
  | 1 =>
    obtain ⟨v, hv⟩ := case1_append (s := s) 0 htail (by omega)
    exact ⟨h ^^^ mixed v, fun rest => by rw [handleTail, hv, Option.map_some]⟩
  | 2 =>
    obtain ⟨v, hv⟩ := case2_append (s := s) 0 htail (by omega)
    exact ⟨h ^^^ mixed v, fun rest => by rw [handleTail, hv, Option.map_some]⟩
  | 3 =>
    obtain ⟨v, hv⟩ := case3_append (s := s) 0 htail (by omega)
    exact ⟨h ^^^ mixed v, fun rest => by rw [handleTail, hv, Option.map_some]⟩

theorem murmur3_append (hlen : s.length < 2 ^ 31) (seed : UInt32) :
    ∃ h, ∀ rest, murmur3 (s ++ rest) (Int32.ofNat s.length) seed = some h := by
  have hint : (Int32.ofNat s.length).toInt = s.length := Int32.toInt_ofNat_of_lt hlen
  have hblk : (s.length : ℤ).tdiv 4 = (s.length / 4 : ℕ) := by
    rw [Int.tdiv_eq_ediv_of_nonneg (by omega)]
    omega
  obtain ⟨h, hblocks⟩ := blocks_append (s := s) (s.length / 4) 0 seed (by omega)
  obtain ⟨h', htail⟩ := handleTail_append (s := s) ((s.length / 4 : ℕ) * 4) (s.length % 4) h
    (by omega) (by omega)
  refine ⟨fmix32 (h' ^^^ (Int32.ofNat s.length).toUInt32), fun rest => ?_⟩
  have hmod : ((s.length : ℤ) % 4).toNat = s.length % 4 := by omega
  simp only [murmur3, hint, hblk, hmod, Int.toNat_natCast, hblocks, Option.bind_some, htail,
    Option.map_some]

/-! ### `quick_hash` as a number -/

theorem takeWhile_terminated (hnul : 0 ∉ s) : (s ++ [0]).takeWhile (· ≠ 0) = s := by
  rw [List.takeWhile_append_of_pos]
  · simp
  · intro c hc
    exact decide_eq_true fun hzero => hnul (hzero ▸ hc)

theorem strlen_terminated (hnul : 0 ∉ s) : strlen (s ++ [0]) = some s.length := by
  unfold strlen
  rw [if_pos (by simp), takeWhile_terminated hnul]

theorem quickLoop_terminated (hnul : 0 ∉ s) (h : UInt32) :
    quickLoop h (s ++ [0]) = some (s.foldl quickStep h) := by
  induction s generalizing h with
  | nil => rfl
  | cons c s ih =>
    rw [List.mem_cons, not_or] at hnul
    rw [List.cons_append, quickLoop, if_neg (Ne.symm hnul.1), ih hnul.2]
    rfl

theorem quickLoopSize_eq (c : UInt8) (s : List UInt8) (n : ℕ) (h : UInt32) :
    quickLoopSize (c :: s) n h = some ((List.replicate n c).foldl quickStep h) := by
  induction n generalizing h with
  | zero => rfl
  | succ n ih =>
    show quickLoopSize (c :: s) n (quickStep h c) = _
    rw [ih]
    rfl

theorem ofInt_value : ∀ c : UInt8, (UInt32.ofInt (value c)).toNat = value c % 2 ^ 32 :=
  forall_byte (by decide +kernel)

theorem quickStep_modEq (h : UInt32) (c : UInt8) :
    (quickStep h c).toNat ≡ 31 * h.toNat + value c [ZMOD 2 ^ 32] := by
  have hvalue := ofInt_value c
  unfold quickStep Int.ModEq
  rw [UInt32.toNat_add, UInt32.toNat_mul]
  have h31 : (31 : UInt32).toNat = 31 := rfl
  rw [h31]
  omega

theorem foldl_modEq (s : List UInt8) (h : UInt32) :
    (s.foldl quickStep h).toNat ≡ 31 ^ s.length * h.toNat + weighted (s.map value)
      [ZMOD 2 ^ 32] := by
  induction s generalizing h with
  | nil => simp [weighted]
  | cons c s ih =>
    have hstep := ((quickStep_modEq h c).mul_left (31 ^ s.length)).add_right
      (weighted (s.map value))
    rw [List.foldl_cons, List.map_cons, List.length_cons, weighted, List.length_map]
    have hring : 31 ^ s.length * (31 * (h.toNat : ℤ) + value c) + weighted (s.map value) =
        31 ^ (s.length + 1) * h.toNat + (31 ^ s.length * value c + weighted (s.map value)) := by
      ring
    rw [hring] at hstep
    exact (ih (quickStep h c)).trans hstep

/-- The two differ in the digits. -/
theorem weighted_sub (ds : List ℤ) (d : ℤ) :
    weighted (ds.map (· - d)) = weighted ds - weighted (List.replicate ds.length d) := by
  induction ds with
  | nil => rfl
  | cons a ds ih =>
    simp only [List.map_cons, weighted, List.length_cons, List.replicate_succ, List.length_map,
      List.length_replicate, ih]
    ring

theorem foldl_eq_iff (s t : List UInt8) :
    s.foldl quickStep 0 = t.foldl quickStep 0 ↔
      (2 : ℤ) ^ 32 ∣ weighted (t.map value) - weighted (s.map value) := by
  have hs := foldl_modEq s 0
  have ht := foldl_modEq t 0
  simp only [UInt32.toNat_zero, Nat.cast_zero, mul_zero, zero_add] at hs ht
  rw [← Int.modEq_iff_dvd, ← UInt32.toNat_inj]
  constructor
  · intro h
    rw [h] at hs
    exact hs.symm.trans ht
  · intro h
    have hmod := (hs.trans h).trans ht.symm
    have hlts := (s.foldl quickStep 0).toNat_lt
    have hltt := (t.foldl quickStep 0).toNat_lt
    unfold Int.ModEq at hmod
    omega

/-! ### Agreement -/

theorem quickHash_eq (hlen : s.length < 2 ^ 31) :
    quickHash s (UInt32.ofNat s.length) =
      some ((List.replicate s.length (s.headD 0)).foldl quickStep 0) := by
  have hsize : (UInt32.ofNat s.length).toNat = s.length :=
    UInt32.toNat_ofNat_of_lt (hlen.trans (by decide))
  unfold quickHash
  rw [hsize]
  cases s with
  | nil => rfl
  | cons c s => exact quickLoopSize_eq c s _ 0

theorem quick_iff (hnul : 0 ∉ s) (hlen : s.length < 2 ^ 31) :
    (∃ h, quickHash s (UInt32.ofNat s.length) = some h ∧ quickHashStr (s ++ [0]) = some h) ↔
      (2 : ℤ) ^ 32 ∣ weighted (s.map fun c => value c - value (s.headD 0)) := by
  have hmap : (s.map fun c => value c - value (s.headD 0)) =
      (s.map value).map (· - value (s.headD 0)) := by
    rw [List.map_map]
    rfl
  have hiff := foldl_eq_iff (List.replicate s.length (s.headD 0)) s
  rw [List.map_replicate] at hiff
  rw [hmap, weighted_sub, List.length_map, ← hiff, quickHash_eq hlen, quickHashStr,
    quickLoop_terminated hnul]
  constructor
  · rintro ⟨h, hsize, hstr⟩
    exact Option.some.inj (hsize.trans hstr.symm)
  · intro h
    exact ⟨_, rfl, congrArg some h.symm⟩

theorem murmur3_agree (hnul : 0 ∉ s) (hlen : s.length < 2 ^ 31) (seed : UInt32) :
    ∃ h, murmur3Hash (some s) (UInt32.ofNat s.length) seed = some h ∧
      murmur3HashStr (some (s ++ [0])) seed = some h := by
  obtain ⟨h, hh⟩ := murmur3_append hlen seed
  refine ⟨h, ?_, ?_⟩
  · have hnil := hh []
    rw [List.append_nil] at hnil
    exact hnil
  · show (strlen (s ++ [0])).bind _ = _
    rw [strlen_terminated hnul]
    exact hh [0]

theorem agree_iff (s : List UInt8) (hnul : 0 ∉ s) (hlen : s.length < 2 ^ 31) :
    Agree s ↔ 2 ^ 32 ∣ weighted (s.map fun c => value c - value (s.headD 0)) := by
  rw [← quick_iff hnul hlen]
  exact ⟨fun h => h.quick, fun h => ⟨h, murmur3_agree hnul hlen⟩⟩

/-- `"aa"` -/
theorem agree_iff_letters : Agree [97, 97] :=
  (agree_iff [97, 97] (by decide) (by decide)).mpr (by decide)

/-- `"ab"` -/
theorem not_agree_of_letters :
    quickHash [97, 98] 2 = some 3104 ∧ quickHashStr [97, 98, 0] = some 3105 ∧
      ¬Agree [97, 98] := by
  refine ⟨by decide, by decide, ?_⟩
  intro h
  obtain ⟨h, hsize, hstr⟩ := h.quick
  exact absurd (hsize.trans hstr.symm) (by decide)

end Muhui.Hash
