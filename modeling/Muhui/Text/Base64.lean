/-
  `base64encode` and `base64decode` (`hash_util.cc`).

  Three bytes are packed into a number of 24 bits, which four characters stand for; `=` stands for
  what is missing in the last group.  The decoder writes through a pointer into a buffer of three
  quarters of the length of its argument, and there is `Room` for each group that is complete.  A
  write behind the buffer is `none`.
-/
import Muhui.Encoding.Word
import Mathlib.Data.List.Basic
import Mathlib.Data.Nat.Bitwise
import Mathlib.Data.Nat.Notation

namespace Muhui.Base64

/-- `A`-`Z`, `a`-`z`, `0`-`9`, `+` and `/` -/
def base64 : List UInt8 :=
  [65, 66, 67, 68, 69, 70, 71, 72, 73, 74, 75, 76, 77, 78, 79, 80, 81, 82, 83, 84, 85, 86, 87, 88,
   89, 90, 97, 98, 99, 100, 101, 102, 103, 104, 105, 106, 107, 108, 109, 110, 111, 112, 113, 114,
   115, 116, 117, 118, 119, 120, 121, 122, 48, 49, 50, 51, 52, 53, 54, 55, 56, 57, 43, 47]

def character (n : ℕ) : UInt8 := base64.getD n 0

/-! ### The encoder -/

/-- The inner loop: `n` more bytes, as far as there are any. The result is the packed number, how
many are missing, and the rest. -/
def pack : ℕ → ℕ → List UInt8 → ℕ × ℕ × List UInt8
  | 0, packed, rest => (packed, 0, rest)
  | n + 1, packed, [] => (packed, n + 1, [])
  | n + 1, packed, c :: rest => pack n (packed <<< 8 ||| c.toNat) rest

/-- The characters of a packed number. -/
def characters (padding packed : ℕ) : List UInt8 :=
  [character (packed >>> 18), character (packed >>> 12 &&& 0x3f)] ++
    (if padding ≠ 2 then [character (packed >>> 6 &&& 0x3f)] else []) ++
    (if padding = 0 then [character (packed &&& 0x3f)] else []) ++ List.replicate padding 61

theorem length_pack_le (n packed : ℕ) (data : List UInt8) :
    (pack n packed data).2.2.length ≤ data.length := by
  induction n generalizing packed data with
  | zero => exact le_rfl
  | succ n ih =>
    cases data with
    | nil => exact le_rfl
    | cons c data => exact (ih _ data).trans (Nat.le_succ _)

/-- `base64encode` -/
def base64encode : List UInt8 → List UInt8
  | [] => []
  | c :: data =>
    let r := pack 3 0 (c :: data)
    -- a byte that is missing is 0
    characters r.2.1 (r.1 <<< (8 * r.2.1)) ++ base64encode r.2.2
termination_by data => data.length
decreasing_by exact Nat.lt_succ_of_le (length_pack_le 2 _ data)

/-! ### The decoder -/

/-- The number that a character stands for. -/
def value (c : UInt8) : Option ℕ :=
  if 65 ≤ c ∧ c ≤ 90 then some (c.toNat - 65)
  else if 97 ≤ c ∧ c ≤ 122 then some (c.toNat - 97 + 26)
  else if 48 ≤ c ∧ c ≤ 57 then some (c.toNat - 48 + 52)
  else if c = 43 then some 62
  else if c = 47 then some 63
  else none

/-- The inner loop: `n` more characters, as far as there are any. The result is how many are
missing, the padding, the packed number and the rest; `none` returns the empty string. -/
def unpack : ℕ → ℕ → ℕ → List UInt8 → Option (ℕ × ℕ × ℕ × List UInt8)
  | 0, padding, packed, rest => some (0, padding, packed, rest)
  | n + 1, padding, packed, [] => some (n + 1, padding, packed, [])
  | n + 1, padding, packed, c :: rest =>
    if c = 61 then unpack n (padding + 1) (packed <<< 6) rest
    else if padding > 0 then none
    else
      match value c with
      | none => none
      | some val => unpack n padding (packed <<< 6 ||| val) rest

/-- The bytes of a packed number. -/
def packedBytes (padding packed : ℕ) : List UInt8 :=
  [UInt8.ofNat (packed >>> 16 &&& 0xff)] ++
    (if padding ≠ 2 then [UInt8.ofNat (packed >>> 8 &&& 0xff)] else []) ++
    (if padding = 0 then [UInt8.ofNat (packed &&& 0xff)] else [])

/-- `*writeBuf++ = b` for some bytes, from the position `w` on. -/
def write (buf : List UInt8) (w : ℕ) : List UInt8 → Option (List UInt8 × ℕ)
  | [] => some (buf, w)
  | b :: bytes => if w < buf.length then write (buf.set w b) (w + 1) bytes else none

/-- What a pass of the inner loop has found, when the loop does not return. -/
theorem unpack_cons {n padding packed : ℕ} {c : UInt8} {src : List UInt8}
    {r : ℕ × ℕ × ℕ × List UInt8} (h : unpack (n + 1) padding packed (c :: src) = some r) :
    c = 61 ∧ unpack n (padding + 1) (packed <<< 6) src = some r ∨
      padding = 0 ∧ ∃ val, value c = some val ∧
        unpack n padding (packed <<< 6 ||| val) src = some r := by
  rw [unpack] at h
  split_ifs at h with hc hpadding
  · exact .inl ⟨hc, h⟩
  · refine .inr ⟨Nat.eq_zero_of_not_pos hpadding, ?_⟩
    cases hvalue : value c with
    | none =>
      rw [hvalue] at h
      cases h
    | some val =>
      rw [hvalue] at h
      exact ⟨val, rfl, h⟩

theorem length_unpack_le {n padding packed : ℕ} {src : List UInt8} {r : ℕ × ℕ × ℕ × List UInt8}
    (h : unpack n padding packed src = some r) : r.2.2.2.length ≤ src.length := by
  induction n generalizing padding packed src with
  | zero =>
    obtain rfl := Option.some.inj h
    exact le_rfl
  | succ n ih =>
    cases src with
    | nil =>
      obtain rfl := Option.some.inj h
      exact le_rfl
    | cons c src =>
      rcases unpack_cons h with ⟨-, h⟩ | ⟨-, val, -, h⟩
      · exact (ih h).trans (Nat.le_succ _)
      · exact (ih h).trans (Nat.le_succ _)

theorem length_unpack_lt {n packed : ℕ} {c : UInt8} {src : List UInt8}
    {r : ℕ × ℕ × ℕ × List UInt8} (h : unpack (n + 1) 0 packed (c :: src) = some r) :
    r.2.2.2.length < (c :: src).length := by
  apply Nat.lt_succ_of_le
  rcases unpack_cons h with ⟨-, h⟩ | ⟨-, val, -, h⟩
  · exact length_unpack_le h
  · exact length_unpack_le h

/-- The outer loop, with the buffer and the position of the pointer. -/
def loop (buf : List UInt8) (w : ℕ) : List UInt8 → Option (List UInt8)
  | [] => some (buf.take w)
  | c :: src =>
    match _h : unpack 4 0 0 (c :: src) with
    | none => some []
    | some (missing, padding, packed, rest) =>
      if missing ≠ 0 then some []
      else if padding > 0 ∧ rest ≠ [] then some []
      else if padding > 2 then some []
      else
        (write buf w (packedBytes padding packed)).bind fun r => loop r.1 r.2 rest
termination_by src => src.length
decreasing_by exact length_unpack_lt _h

/-- `base64decode` -/
def base64decode (src : List UInt8) : Option (List UInt8) :=
  loop (List.replicate (src.length * 3 / 4) 0) 0 src

/-- Complete groups of characters of the alphabet, with at most two `=` and only at the end. -/
def Wellformed (src : List UInt8) : Prop :=
  src.length % 4 = 0 ∧ ∃ body padding, src = body ++ List.replicate padding 61 ∧ padding ≤ 2 ∧
    ∀ c ∈ body, c ∈ base64

/-! ### The alphabet -/

theorem value_character {n : ℕ} (hn : n < 64) : value (character n) = some n := by
  have hall : ∀ m : Fin 64, value (character m) = some m.val := by decide +kernel
  exact hall ⟨n, hn⟩

theorem character_ne {n : ℕ} (hn : n < 64) : character n ≠ 61 := by
  have hall : ∀ m : Fin 64, character m ≠ 61 := by decide +kernel
  exact hall ⟨n, hn⟩

theorem mem_base64 : ∀ c : UInt8, (value c).isSome → c ∈ base64 := forall_byte (by decide +kernel)

/-! ### Bits -/

variable {n w padding packed : ℕ} {buf src rest d : List UInt8}

theorem and_63 (n : ℕ) : n &&& 0x3f = n % 64 := Nat.and_two_pow_sub_one_eq_mod n 6

theorem or_value (hn : n < 64) : packed <<< 6 ||| n = packed * 64 + n := by
  rw [← Nat.shiftLeft_add_eq_or_of_lt hn, Nat.shiftLeft_eq]

theorem or_byte (c : UInt8) : packed <<< 8 ||| c.toNat = packed * 256 + c.toNat := by
  rw [← Nat.shiftLeft_add_eq_or_of_lt c.toNat_lt, Nat.shiftLeft_eq]

theorem ofNat_and (n : ℕ) : UInt8.ofNat (n &&& 0xff) = UInt8.ofNat n := by
  rw [Nat.and_two_pow_sub_one_eq_mod n 8]
  exact UInt8.ofNat_mod_size

theorem characters_zero (packed : ℕ) : characters 0 packed =
    [character (packed / 262144), character (packed / 4096 % 64), character (packed / 64 % 64),
      character (packed % 64)] := by
  simp [characters, and_63, Nat.shiftRight_eq_div_pow]

theorem characters_one (packed : ℕ) : characters 1 packed =
    [character (packed / 262144), character (packed / 4096 % 64), character (packed / 64 % 64),
      61] := by
  simp [characters, and_63, Nat.shiftRight_eq_div_pow]

theorem characters_two (packed : ℕ) : characters 2 packed =
    [character (packed / 262144), character (packed / 4096 % 64), 61, 61] := by
  simp [characters, and_63, Nat.shiftRight_eq_div_pow]

theorem unpack_character (hn : n < 64) (k : ℕ) :
    unpack (k + 1) 0 packed (character n :: rest) = unpack k 0 (packed * 64 + n) rest := by
  rw [unpack, if_neg (character_ne hn), if_neg (lt_irrefl 0), value_character hn]
  show unpack k 0 (packed <<< 6 ||| n) rest = _
  rw [or_value hn]

theorem unpack_padding (k : ℕ) :
    unpack (k + 1) padding packed (61 :: rest) = unpack k (padding + 1) (packed * 64) rest := by
  rw [unpack, if_pos rfl, Nat.shiftLeft_eq]

/-- Four characters give the number back when padding stands for bytes that are 0. -/
theorem unpack_characters (hpadding : padding ≤ 2) (hpacked : packed < 2 ^ 24)
    (hzero : packed % 256 ^ padding = 0) (rest : List UInt8) :
    unpack 4 0 0 (characters padding packed ++ rest) = some (0, padding, packed, rest) := by
  have hfirst : packed / 262144 < 64 := by omega
  have hmod (m : ℕ) : m % 64 < 64 := Nat.mod_lt m (by decide)
  obtain rfl | rfl | rfl : padding = 0 ∨ padding = 1 ∨ padding = 2 := by omega
  · have heq : (((0 * 64 + packed / 262144) * 64 + packed / 4096 % 64) * 64 +
        packed / 64 % 64) * 64 + packed % 64 = packed := by
      omega
    rw [characters_zero, List.cons_append, unpack_character hfirst, List.cons_append,
      unpack_character (hmod _), List.cons_append, unpack_character (hmod _), List.cons_append,
      unpack_character (hmod _), unpack, heq]
    rfl
  · have heq : (((0 * 64 + packed / 262144) * 64 + packed / 4096 % 64) * 64 +
        packed / 64 % 64) * 64 = packed := by
      omega
    rw [characters_one, List.cons_append, unpack_character hfirst, List.cons_append,
      unpack_character (hmod _), List.cons_append, unpack_character (hmod _), List.cons_append,
      unpack_padding, unpack, heq]
    rfl
  · have heq : ((0 * 64 + packed / 262144) * 64 + packed / 4096 % 64) * 64 * 64 = packed := by
      omega
    rw [characters_two, List.cons_append, unpack_character hfirst, List.cons_append,
      unpack_character (hmod _), List.cons_append, unpack_padding, List.cons_append,
      unpack_padding, unpack, heq]
    rfl

/-! ### The buffer -/

theorem write_eq (buf : List UInt8) (w : ℕ) (bytes : List UInt8)
    (h : w + bytes.length ≤ buf.length) :
    ∃ buf', write buf w bytes = some (buf', w + bytes.length) ∧ buf'.length = buf.length ∧
      buf'.take (w + bytes.length) = buf.take w ++ bytes := by
  induction bytes generalizing buf w with
  | nil => exact ⟨buf, rfl, rfl, by simp⟩
  | cons b bytes ih =>
    rw [List.length_cons] at h ⊢
    have hw : w < buf.length := by omega
    obtain ⟨buf', hwrite, hlength, htake⟩ := ih (buf.set w b) (w + 1)
      (by rw [List.length_set]; omega)
    refine ⟨buf', ?_, ?_, ?_⟩
    · rw [write, if_pos hw, hwrite, Nat.add_right_comm, Nat.add_assoc]
    · rw [hlength, List.length_set]
    · rw [← Nat.add_assoc, Nat.add_right_comm, htake, List.take_add_one, List.take_set_of_le le_rfl,
        List.getElem?_set_self hw]
      simp

/-! ### What is accepted -/

theorem mem_of_value {c : UInt8} {n : ℕ} (h : value c = some n) : c ∈ base64 :=
  mem_base64 c (by rw [h]; rfl)

theorem unpack_spec {missing padding' packed' : ℕ}
    (h : unpack n padding packed src = some (missing, padding', packed', rest)) :
    ∃ body k, src = body ++ List.replicate k 61 ++ rest ∧ (∀ c ∈ body, c ∈ base64) ∧
      padding' = padding + k ∧ missing + body.length + k = n ∧ (0 < padding → body = []) := by
  induction n generalizing padding packed src with
  | zero =>
    simp only [unpack, Option.some.injEq, Prod.mk.injEq] at h
    obtain ⟨rfl, rfl, -, rfl⟩ := h
    exact ⟨[], 0, rfl, by simp, rfl, rfl, fun _ => rfl⟩
  | succ n ih =>
    cases src with
    | nil =>
      simp only [unpack, Option.some.injEq, Prod.mk.injEq] at h
      obtain ⟨rfl, rfl, -, rfl⟩ := h
      exact ⟨[], 0, rfl, by simp, rfl, rfl, fun _ => rfl⟩
    | cons c src =>
      rcases unpack_cons h with ⟨rfl, h⟩ | ⟨rfl, val, hvalue, h⟩
      · -- behind padding there is only padding
        obtain ⟨body, k, rfl, -, rfl, hn, hbody⟩ := ih h
        obtain rfl := hbody padding.succ_pos
        refine ⟨[], k + 1, rfl, by simp, by omega, ?_, fun _ => rfl⟩
        rw [List.length_nil] at hn ⊢
        omega
      · obtain ⟨body, k, rfl, hbody, rfl, hn, -⟩ := ih h
        refine ⟨c :: body, k, rfl, ?_, rfl, ?_, fun h => absurd h (lt_irrefl 0)⟩
        · exact List.forall_mem_cons.mpr ⟨mem_of_value hvalue, hbody⟩
        · rw [List.length_cons]
          omega

theorem length_packedBytes_le (padding packed : ℕ) : (packedBytes padding packed).length ≤ 3 := by
  unfold packedBytes
  split_ifs <;> simp

/-- One group, with what the code checks about it. -/
theorem loop_of_unpack {missing : ℕ} (hsrc : src ≠ [])
    (h : unpack 4 0 0 src = some (missing, padding, packed, rest)) :
    loop buf w src =
      if missing ≠ 0 then some []
      else if padding > 0 ∧ rest ≠ [] then some []
      else if padding > 2 then some []
      else (write buf w (packedBytes padding packed)).bind fun r => loop r.1 r.2 rest := by
  cases src with
  | nil => exact absurd rfl hsrc
  | cons c src =>
    rw [loop]
    split
    · next heq => rw [h] at heq; cases heq
    · next heq =>
      rw [h] at heq
      cases heq
      rfl

theorem loop_of_unpack_none (hsrc : src ≠ []) (h : unpack 4 0 0 src = none) :
    loop buf w src = some [] := by
  cases src with
  | nil => exact absurd rfl hsrc
  | cons c src =>
    rw [loop]
    split
    · rfl
    · next heq => rw [h] at heq; cases heq

/-- There is room for the bytes of the groups to come. -/
def Room (buf : List UInt8) (w : ℕ) (src : List UInt8) : Prop :=
  w + src.length * 3 / 4 ≤ buf.length

theorem wellformed_group {body : List UInt8} (hbody : ∀ c ∈ body, c ∈ base64)
    (hlength : body.length + padding = 4) (hpadding : padding ≤ 2)
    (hrest : padding = 0 ∨ rest = []) (hwf : Wellformed rest) :
    Wellformed (body ++ List.replicate padding 61 ++ rest) := by
  obtain ⟨hfour, body', padding', rfl, hle, hbody'⟩ := hwf
  refine ⟨?_, ?_⟩
  · simp only [List.length_append, List.length_replicate] at hfour ⊢
    omega
  · obtain rfl | hnil := hrest
    · refine ⟨body ++ body', padding', by simp, hle, ?_⟩
      intro c hc
      exact (List.mem_append.mp hc).elim (hbody c) (hbody' c)
    · exact ⟨body, padding, by rw [hnil, List.append_nil], hpadding, hbody⟩

theorem loop_spec (src : List UInt8) (hroom : Room buf w src) :
    ∃ r, loop buf w src = some r ∧ (r ≠ [] → Wellformed src) := by
  induction hlen : src.length using Nat.strong_induction_on generalizing src buf w with
  | _ len ih =>
    by_cases hsrc : src = []
    · subst hsrc
      rw [loop]
      exact ⟨_, rfl, fun _ => ⟨rfl, [], 0, rfl, by decide, by simp⟩⟩
    · cases hunpack : unpack 4 0 0 src with
      | none => exact ⟨[], loop_of_unpack_none hsrc hunpack, fun h => absurd rfl h⟩
      | some r =>
        obtain ⟨missing, padding, packed, rest⟩ := r
        rw [loop_of_unpack hsrc hunpack]
        split_ifs with hmissing hend hthree
        all_goals try exact ⟨[], rfl, fun h => absurd rfl h⟩
        obtain ⟨body, k, rfl, hbody, rfl, hn, -⟩ := unpack_spec hunpack
        rw [Nat.zero_add] at hend hthree ⊢
        have hbytes := length_packedBytes_le k packed
        simp only [Room, List.length_append, List.length_replicate] at hroom hlen
        obtain ⟨buf', hwrite, hlength, -⟩ :=
          write_eq buf w (packedBytes k packed) (by omega)
        have hrest : Room buf' (w + (packedBytes k packed).length) rest := by
          unfold Room
          rw [hlength]
          omega
        obtain ⟨r, hr, hwf⟩ := ih rest.length (by omega) rest hrest rfl
        refine ⟨r, by rw [hwrite]; exact hr, fun hne => ?_⟩
        exact wellformed_group hbody (by omega) (by omega) (by by_cases k = 0 <;> grind) (hwf hne)

/-! ### The round trip -/

/-- Complete groups of what the encoder gives are decoded to what was packed. -/
theorem loop_characters (buf : List UInt8) (w : ℕ) (hpadding : padding ≤ 2)
    (hpacked : packed < 2 ^ 24) (hzero : packed % 256 ^ padding = 0)
    (hrest : padding = 0 ∨ rest = [])
    (hw : w + (packedBytes padding packed).length ≤ buf.length) :
    ∃ buf', buf'.length = buf.length ∧
      buf'.take (w + (packedBytes padding packed).length) =
        buf.take w ++ packedBytes padding packed ∧
      loop buf w (characters padding packed ++ rest) =
        loop buf' (w + (packedBytes padding packed).length) rest := by
  obtain ⟨buf', hwrite, hlength, htake⟩ := write_eq _ _ _ hw
  refine ⟨buf', hlength, htake, ?_⟩
  have hne : characters padding packed ++ rest ≠ [] := by simp [characters]
  rw [loop_of_unpack hne (unpack_characters hpadding hpacked hzero rest), hwrite]
  have hend : ¬(padding > 0 ∧ rest ≠ []) := by grind
  rw [if_neg (not_not_intro rfl), if_neg hend, if_neg (by omega)]
  rfl

theorem length_characters (hpadding : padding ≤ 2) : (characters padding packed).length = 4 := by
  obtain rfl | rfl | rfl : padding = 0 ∨ padding = 1 ∨ padding = 2 := by omega
  · rw [characters_zero]
    rfl
  · rw [characters_one]
    rfl
  · rw [characters_two]
    rfl

theorem length_packedBytes (packed : ℕ) (hpadding : padding ≤ 2) :
    (packedBytes padding packed).length = 3 - padding := by
  unfold packedBytes
  obtain rfl | rfl | rfl : padding = 0 ∨ padding = 1 ∨ padding = 2 := by omega
  all_goals simp

theorem ofNat_eq {m : ℕ} {a : UInt8} (h : m % 256 = a.toNat) : UInt8.ofNat m = a :=
  UInt8.toNat_inj.mp ((UInt8.toNat_ofNat').trans h)

/-- What is packed, with 0 for what is missing, has the bytes that there were. -/
theorem packedBytes_pack (data : List UInt8) (hdata : data ≠ []) :
    let r := pack 3 0 data
    let packed := r.1 <<< (8 * r.2.1)
    r.2.1 ≤ 2 ∧ packed < 2 ^ 24 ∧ packed % 256 ^ r.2.1 = 0 ∧ (r.2.1 = 0 ∨ r.2.2 = []) ∧
      packedBytes r.2.1 packed ++ r.2.2 = data := by
  match data with
  | [a] =>
    have ha := a.toNat_lt
    simp only [pack, or_byte]
    simp only [Nat.shiftLeft_eq, packedBytes, ofNat_and, Nat.shiftRight_eq_div_pow]
    refine ⟨le_rfl, by omega, by omega, .inr trivial, ?_⟩
    rw [ofNat_eq (a := a) (by omega)]
    rfl
  | [a, b] =>
    have ha := a.toNat_lt
    have hb := b.toNat_lt
    simp only [pack, or_byte]
    simp only [Nat.shiftLeft_eq, packedBytes, ofNat_and, Nat.shiftRight_eq_div_pow]
    refine ⟨by decide, by omega, by omega, .inr trivial, ?_⟩
    rw [ofNat_eq (a := a) (by omega), ofNat_eq (a := b) (by omega)]
    rfl
  | a :: b :: c :: data =>
    have ha := a.toNat_lt
    have hb := b.toNat_lt
    have hc := c.toNat_lt
    simp only [pack, or_byte]
    simp only [Nat.shiftLeft_eq, packedBytes, ofNat_and, Nat.shiftRight_eq_div_pow]
    refine ⟨by decide, by omega, by omega, .inl trivial, ?_⟩
    rw [ofNat_eq (a := a) (by omega), ofNat_eq (a := b) (by omega), ofNat_eq (a := c) (by omega)]
    rfl

theorem base64encode_of_ne_nil (hd : d ≠ []) :
    base64encode d = characters (pack 3 0 d).2.1 ((pack 3 0 d).1 <<< (8 * (pack 3 0 d).2.1)) ++
      base64encode (pack 3 0 d).2.2 := by
  cases d with
  | nil => exact absurd rfl hd
  | cons c d => rw [base64encode]

theorem loop_base64encode (d : List UInt8) (hroom : Room buf w (base64encode d)) :
    loop buf w (base64encode d) = some (buf.take w ++ d) := by
  induction hlen : d.length using Nat.strong_induction_on generalizing d buf w with
  | _ len ih =>
    by_cases hd : d = []
    · rw [hd, base64encode, loop, List.append_nil]
    · obtain ⟨hpadding, hlt, hzero, hrest, hbytes⟩ := packedBytes_pack d hd
      rw [base64encode_of_ne_nil hd] at hroom ⊢
      generalize pack 3 0 d = r at *
      obtain ⟨packed, padding, rest⟩ := r
      dsimp only at hpadding hlt hzero hrest hbytes hroom ⊢
      have hthree := length_packedBytes (packed <<< (8 * padding)) hpadding
      simp only [Room, List.length_append, length_characters hpadding] at hroom
      have hencode : padding = 0 ∨ base64encode rest = [] :=
        hrest.imp_right fun h => by rw [h, base64encode]
      obtain ⟨buf', hlength, htake, hloop⟩ :=
        loop_characters buf w hpadding hlt hzero hencode (by omega)
      rw [hloop, ih rest.length _ rest _ rfl, htake, List.append_assoc, hbytes]
      · rw [← hlen, ← hbytes, List.length_append]
        omega
      · unfold Room
        omega

/-- Data comes back from its characters. Every text is decoded without a write behind the buffer, to
the empty string when it is not well-formed. -/
theorem base64_faithful :
    (∀ d, base64decode (base64encode d) = some d) ∧
      ∀ src, ∃ r, base64decode src = some r ∧ (r ≠ [] → Wellformed src) := by
  have hroom (src : List UInt8) : Room (List.replicate (src.length * 3 / 4) 0) 0 src := by
    unfold Room
    rw [List.length_replicate, Nat.zero_add]
  refine ⟨fun d => ?_, fun src => loop_spec src (hroom src)⟩
  exact loop_base64encode d (hroom _)

end Muhui.Base64
