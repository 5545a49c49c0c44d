/-
  The order of addresses (`address.cc`).

  `operator<` compares the bytes of two addresses over the shorter length, and then the lengths:
  this is the lexicographic order of the byte strings (`less_iff`), whatever the subclasses are, and
  `operator==` is equality of the byte strings (`equal_iff`).

  The length of a `UnixAddress` may be set to any number, so bytes behind the object may be compared
  too.
-/
import Muhui.Address.Unix
import Mathlib.Data.List.Lex

namespace Muhui.Address

/-! ### Byte strings -/

/-- `memcmp`, of which only the sign is specified: bytes are compared as unsigned numbers. -/
def memcmp : List UInt8 → List UInt8 → ℤ
  | a :: s, b :: t => if a = b then memcmp s t else (a.toNat : ℤ) - b.toNat
  | _, _ => 0

theorem memcmp_cons_self (a : UInt8) (s t : List UInt8) :
    memcmp (a :: s) (a :: t) = memcmp s t := if_pos rfl

theorem memcmp_cons_of_ne {a b : UInt8} (h : a ≠ b) (s t : List UInt8) :
    memcmp (a :: s) (b :: t) = (a.toNat : ℤ) - b.toNat := if_neg h

theorem memcmp_eq_zero_iff {s t : List UInt8} (h : s.length = t.length) :
    memcmp s t = 0 ↔ s = t := by
  induction s generalizing t with
  | nil =>
    rw [List.length_nil, eq_comm, List.length_eq_zero_iff] at h
    simp [h, memcmp]
  | cons a s ih =>
    cases t with
    | nil => simp at h
    | cons b t =>
      by_cases hab : a = b
      · rw [hab, memcmp_cons_self, ih (by simpa using h)]
        simp
      · have hne : (a.toNat : ℤ) - b.toNat ≠ 0 := by
          intro heq
          exact hab (UInt8.toNat_inj.mp (by omega))
        rw [memcmp_cons_of_ne hab]
        exact iff_of_false hne fun heq => hab (List.cons.inj heq).1

/-- The comparison over the shorter length with the lengths behind it is the lexicographic order. -/
theorem memcmp_take_lt_iff (s t : List UInt8) :
    (memcmp (s.take (min s.length t.length)) (t.take (min s.length t.length)) < 0 ∨
        memcmp (s.take (min s.length t.length)) (t.take (min s.length t.length)) = 0 ∧
          s.length < t.length) ↔
      s < t := by
  induction s generalizing t with
  | nil => cases t <;> simp [memcmp]
  | cons a s ih =>
    cases t with
    | nil => simp [memcmp]
    | cons b t =>
      rw [List.length_cons, List.length_cons, Nat.succ_min_succ, List.take_succ_cons,
        List.take_succ_cons, List.cons_lt_cons_iff]
      by_cases hab : a = b
      · rw [hab, memcmp_cons_self, Nat.succ_lt_succ_iff, ih t]
        simp
      · have hne : (a.toNat : ℤ) ≠ b.toNat := by
          intro heq
          exact hab (UInt8.toNat_inj.mp (by omega))
        rw [memcmp_cons_of_ne hab, UInt8.lt_iff_toNat_lt]
        simp only [hab, false_and, or_false]
        omega

/-! ### Addresses -/

/-- `sizeof` of `sockaddr_in`, `sockaddr_in6`, `sockaddr_un` and `sockaddr` -/
def sizeofIn : ℕ := 16
def sizeofIn6 : ℕ := 28
def sizeofUn : ℕ := sunPathOffset + sunPathSize
def sizeofSockaddr : ℕ := 16

/-- An object of one of the subclasses: the bytes of its `m_addr`, and its `m_length`, which
`setAddrLen` sets to any number. -/
inductive Object
  | ipv4 (m_addr : Vector UInt8 sizeofIn)
  | ipv6 (m_addr : Vector UInt8 sizeofIn6)
  | unix (m_addr : Vector UInt8 sizeofUn) (m_length : UInt32)
  | unknown (m_addr : Vector UInt8 sizeofSockaddr)

namespace Object

/-- The bytes at `getAddr()`. -/
def m_addr : Object → List UInt8
  | ipv4 m_addr => m_addr.toList
  | ipv6 m_addr => m_addr.toList
  | unix m_addr _ => m_addr.toList
  | unknown m_addr => m_addr.toList

def getAddrLen : Object → ℕ
  | ipv4 _ => sizeofIn
  | ipv6 _ => sizeofIn6
  | unix _ m_length => m_length.toNat
  | unknown _ => sizeofSockaddr

end Object

/-- An address, with the bytes in memory behind its `m_addr`. -/
structure Located where
  object : Object
  behind : ℕ → UInt8

namespace Located

def getAddrLen (a : Located) : ℕ := a.object.getAddrLen

/-- The byte at `getAddr() + i`. -/
def byte (a : Located) (i : ℕ) : UInt8 :=
  if h : i < a.object.m_addr.length then a.object.m_addr[i]
  else a.behind (i - a.object.m_addr.length)

/-- The `n` bytes at `getAddr()`. -/
def load (a : Located) (n : ℕ) : List UInt8 := (List.range n).map a.byte

/-- `operator<` -/
def less (a rhs : Located) : Bool :=
  let minlen := min a.getAddrLen rhs.getAddrLen
  let result := memcmp (a.load minlen) (rhs.load minlen)
  if result < 0 then true
  else if result > 0 then false
  else if a.getAddrLen < rhs.getAddrLen then true
  else false

/-- `operator==` -/
def equal (a rhs : Located) : Bool :=
  a.getAddrLen == rhs.getAddrLen &&
    memcmp (a.load a.getAddrLen) (rhs.load a.getAddrLen) == 0

/-- `operator!=` -/
def unequal (a rhs : Located) : Bool := !(a.equal rhs)

/-- All `getAddrLen()` bytes. -/
def bytes (a : Located) : List UInt8 := a.load a.getAddrLen

/-! ### The order -/

variable {a b c : Located}

theorem length_bytes (a : Located) : a.bytes.length = a.getAddrLen := by
  rw [bytes, load, List.length_map, List.length_range]

theorem take_bytes {n : ℕ} (hn : n ≤ a.getAddrLen) : a.bytes.take n = a.load n := by
  rw [bytes, load, load, ← List.map_take, List.take_range, min_eq_left hn]

theorem less_iff : a.less b = true ↔ a.bytes < b.bytes := by
  rw [← memcmp_take_lt_iff, length_bytes, length_bytes, take_bytes (min_le_left _ _),
    take_bytes (min_le_right _ _)]
  unfold less
  dsimp only
  generalize memcmp _ _ = result
  split_ifs with hneg hpos hlen
  · simp [hneg]
  · simp only [false_iff]
    omega
  · simp only [true_iff]
    omega
  · simp only [false_iff]
    omega

theorem equal_iff : a.equal b = true ↔ a.bytes = b.bytes := by
  unfold equal
  rw [Bool.and_eq_true, beq_iff_eq, beq_iff_eq]
  constructor
  · rintro ⟨hlen, hzero⟩
    rw [memcmp_eq_zero_iff (by simp [load])] at hzero
    rw [bytes, hzero, hlen, bytes]
  · intro heq
    have hlen : a.getAddrLen = b.getAddrLen := by rw [← length_bytes, heq, length_bytes]
    refine ⟨hlen, ?_⟩
    rw [memcmp_eq_zero_iff (by simp [load])]
    rw [bytes, bytes, ← hlen] at heq
    exact heq

/-- Equality of the lengths and of every byte. -/
theorem bytes_eq_iff : a.bytes = b.bytes ↔
    a.getAddrLen = b.getAddrLen ∧ ∀ i < a.getAddrLen, a.byte i = b.byte i := by
  constructor
  · intro heq
    have hlen : a.getAddrLen = b.getAddrLen := by rw [← length_bytes, heq, length_bytes]
    refine ⟨hlen, ?_⟩
    intro i hi
    have := congrArg (fun l => l[i]?) heq
    simpa [bytes, load, hi, hlen ▸ hi] using this
  · rintro ⟨hlen, hbyte⟩
    rw [bytes, bytes, load, load, ← hlen]
    apply List.map_congr_left
    intro i hi
    exact hbyte i (List.mem_range.mp hi)

theorem less_irrefl (a : Located) : ¬ a.less a = true := by
  rw [less_iff]
  exact List.lt_irrefl _

theorem less_trans (hab : a.less b = true) (hbc : b.less c = true) : a.less c = true := by
  rw [less_iff] at hab hbc ⊢
  exact List.lt_trans hab hbc

/-- Exactly one of the three. -/
theorem trichotomy (a b : Located) :
    a.less b = true ∧ a.equal b = false ∧ b.less a = false ∨
      a.less b = false ∧ a.equal b = true ∧ b.less a = false ∨
      a.less b = false ∧ a.equal b = false ∧ b.less a = true := by
  simp only [← Bool.not_eq_true]
  rw [less_iff, less_iff, equal_iff]
  rcases Std.lt_trichotomy a.bytes b.bytes with hlt | heq | hgt
  · left
    refine ⟨hlt, ?_, List.lt_asymm hlt⟩
    intro heq
    rw [heq] at hlt
    exact List.lt_irrefl _ hlt
  · right; left
    rw [heq]
    exact ⟨List.lt_irrefl _, rfl, List.lt_irrefl _⟩
  · right; right
    refine ⟨List.lt_asymm hgt, ?_, hgt⟩
    intro heq
    rw [heq] at hgt
    exact List.lt_irrefl _ hgt

/-- **Order.** For addresses of any subclasses and lengths, `operator<` is irreflexive and
transitive, and exactly one of `a < b`, `a == b` and `b < a` holds, where `a == b` means that the
lengths and all of the bytes are equal, and `a != b` that they are not. -/
theorem order_right (a b c : Located) :
    ¬ a.less a = true ∧ (a.less b = true ∧ b.less c = true → a.less c = true) ∧
      (a.less b = true ∧ a.equal b = false ∧ b.less a = false ∨
        a.less b = false ∧ a.equal b = true ∧ b.less a = false ∨
        a.less b = false ∧ a.equal b = false ∧ b.less a = true) ∧
      (a.equal b = true ↔
        a.getAddrLen = b.getAddrLen ∧ ∀ i < a.getAddrLen, a.byte i = b.byte i) ∧
      a.unequal b = !a.equal b :=
  ⟨less_irrefl a, fun h => less_trans h.1 h.2, trichotomy a b, equal_iff.trans bytes_eq_iff, rfl⟩

end Located

end Muhui.Address
