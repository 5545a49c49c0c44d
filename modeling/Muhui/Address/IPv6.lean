/-
  Subnets of IPv6 addresses (`address.cc`).

  An `IPv6Address` holds a `sockaddr_in6`, whose address is an array of 16 bytes.  The functions
  split the prefix length into the index of a byte and a number of bits in it, treat that byte and
  fill the bytes before or behind it.  An access outside the array is a fault (`none`).
-/
import Muhui.Address.IPv4

namespace Muhui.Address

/-- `in6_addr` -/
abbrev In6Addr := Fin 16 → BitVec 8

namespace In6Addr

/-- `s6_addr[i] = v` -/
def store (a : In6Addr) (i : ℕ) (v : BitVec 8) : Option In6Addr :=
  if h : i < 16 then some (Function.update a ⟨i, h⟩ v) else none

/-- `s6_addr[i]` -/
def load (a : In6Addr) (i : ℕ) : Option (BitVec 8) := if h : i < 16 then some (a ⟨i, h⟩) else none

/-- `s6_addr[i] = v` for `n` indices from `i` on. -/
def fill (v : BitVec 8) : ℕ → ℕ → In6Addr → Option In6Addr
  | 0, _, a => some a
  | n + 1, i, a => (a.store i v).bind (fill v n (i + 1))

/-- The body of `broadcastAddress` and `networdAddress`: the byte at the boundary is changed by `f`,
the bytes behind it become `v`. -/
def writeFrom (a : In6Addr) (prefix_len : ℕ) (f : BitVec 8 → BitVec 8) (v : BitVec 8) :
    Option In6Addr :=
  ((a.load (prefix_len / 8)).bind fun byte => a.store (prefix_len / 8) (f byte)).bind
    (fill v (16 - (prefix_len / 8 + 1)) (prefix_len / 8 + 1))

/-- Bit `j` of the address. -/
def bit (a : In6Addr) (j : Fin 128) : Bool := (a ⟨j / 8, by omega⟩).getMsbD (j % 8)

end In6Addr

/-- `sockaddr_in6` -/
structure SockaddrIn6 where
  sin6_family : BitVec 16
  sin6_port : BitVec 16
  s6_addr : In6Addr
  deriving DecidableEq

structure IPv6Address where
  m_addr : SockaddrIn6
  deriving DecidableEq

/-- `AF_INET6` -/
def AF_INET6 : BitVec 16 := 10

namespace IPv6Address

/-- `IPv6Address(address, port)` -/
def ofBytes (address : In6Addr) (port : BitVec 16) : IPv6Address where
  m_addr :=
    { sin6_family := AF_INET6, sin6_port := byteswapOnLittleEndian port, s6_addr := address }

def broadcastAddress (a : IPv6Address) (prefix_len : ℕ) : Option IPv6Address :=
  (a.m_addr.s6_addr.writeFrom prefix_len (· ||| createMask 8 (prefix_len % 8)) 0xff).map fun addr =>
    ⟨{ a.m_addr with s6_addr := addr }⟩

def networdAddress (a : IPv6Address) (prefix_len : ℕ) : Option IPv6Address :=
  (a.m_addr.s6_addr.writeFrom prefix_len (· &&& createMask 8 (prefix_len % 8)) 0x00).map fun addr =>
    ⟨{ a.m_addr with s6_addr := addr }⟩

def subnetMask (prefix_len : ℕ) : Option IPv6Address :=
  ((In6Addr.store (fun _ => 0) (prefix_len / 8) (~~~createMask 8 (prefix_len % 8))).bind
    (In6Addr.fill 0xff (prefix_len / 8) 0)).map fun addr =>
      ⟨{ sin6_family := AF_INET6, sin6_port := 0, s6_addr := addr }⟩

end IPv6Address

/-! ### The array -/

namespace In6Addr

variable {a : In6Addr} {i n : ℕ} {v : BitVec 8}

theorem store_eq_none (h : 16 ≤ i) : a.store i v = none := dif_neg (not_lt.mpr h)

theorem store_eq (h : i < 16) :
    a.store i v = some fun k : Fin 16 => if (k : ℕ) = i then v else a k := by
  unfold store
  rw [dif_pos h]
  congr 1
  ext k : 1
  simp only [Function.update_apply, Fin.ext_iff]

theorem fill_eq (h : i + n ≤ 16) :
    a.fill v n i = some fun k : Fin 16 => if i ≤ (k : ℕ) ∧ (k : ℕ) < i + n then v else a k := by
  induction n generalizing a i with
  | zero =>
    have hnone : ∀ k : Fin 16, ¬(i ≤ (k : ℕ) ∧ (k : ℕ) < i + 0) := fun k => by omega
    simp only [fill, hnone, if_false]
  | succ n ih =>
    rw [fill, store_eq (by omega), Option.bind_some, ih (by omega)]
    congr 1
    ext k : 1
    by_cases hk : (k : ℕ) = i
    · rw [if_neg (by omega), if_pos hk, if_pos (by omega)]
    · rw [if_neg hk]
      have hiff : i + 1 ≤ (k : ℕ) ∧ (k : ℕ) < i + 1 + n ↔
          i ≤ (k : ℕ) ∧ (k : ℕ) < i + (n + 1) := by omega
      simp only [hiff]

/-- Addresses with the same bits have the same bytes. -/
theorem forall_bit_iff {a' : In6Addr} : (∀ j, a.bit j = a'.bit j) ↔ ∀ k, a k = a' k := by
  constructor
  · intro h k
    apply BitVec.eq_of_getMsbD_eq
    intro i hi
    have hbit := h ⟨8 * k + i, by omega⟩
    unfold bit at hbit
    have hdiv : (8 * (k : ℕ) + i) / 8 = k := by omega
    have hmod : (8 * (k : ℕ) + i) % 8 = i := by omega
    simpa only [hdiv, hmod] using hbit
  · intro h j
    rw [bit, bit, h]

/-- The boundary byte is one of the 16 exactly for a prefix length below 128. -/
theorem writeFrom_eq (a : In6Addr) (p : ℕ) (f : BitVec 8 → BitVec 8) (v : BitVec 8) :
    a.writeFrom p f v =
      if p < 128 then
        some fun k : Fin 16 =>
          if (k : ℕ) < p / 8 then a k else if (k : ℕ) = p / 8 then f (a k) else v
      else none := by
  unfold writeFrom
  by_cases hp : p < 128
  · have hbyte : p / 8 < 16 := by omega
    rw [if_pos hp, load, dif_pos hbyte, Option.bind_some, store_eq hbyte, Option.bind_some,
      fill_eq (by omega)]
    congr 1
    ext k : 1
    by_cases hlt : (k : ℕ) < p / 8
    · rw [if_neg (by omega), if_neg (by omega), if_pos hlt]
    · rw [if_neg hlt]
      by_cases heq : (k : ℕ) = p / 8
      · have hk : k = ⟨p / 8, hbyte⟩ := Fin.ext heq
        rw [if_neg (by omega), if_pos heq, if_pos heq, hk]
      · rw [if_pos (by omega), if_neg heq]
  · rw [if_neg hp, load, dif_neg (by omega)]
    rfl

/-- The first `p` bits are one. -/
def net (p : ℕ) : In6Addr := fun k => netMask 8 (p - 8 * k)

theorem bit_net (p : ℕ) (j : Fin 128) : (net p).bit j = decide ((j : ℕ) < p) :=
  getMsbD_netMask_div (by decide)

variable {p : ℕ} {k : Fin 16}

theorem net_of_lt (h : (k : ℕ) < p / 8) : net p k = BitVec.allOnes 8 := netMask_of_le (by omega)

theorem net_of_eq (h : (k : ℕ) = p / 8) : net p k = ~~~hostMask 8 (p % 8) := by
  have hbits : p - 8 * k = p % 8 := by omega
  unfold net netMask
  rw [hbits]

theorem net_of_gt (h : p / 8 < (k : ℕ)) : net p k = 0 := by
  have hbits : p - 8 * k = 0 := by omega
  unfold net
  rw [hbits, netMask_zero]
  rfl

end In6Addr

/-- `CreateMask<uint8_t>` is the mask of the host part. -/
theorem createMask_8 : ∀ b < 8, createMask 8 b = hostMask 8 b := by decide

namespace IPv6Address

variable (a : IPv6Address) (p : ℕ)

/-! ### Subnets -/

/-- What `subnetMask` is to return. -/
def SubnetMaskRight : Prop :=
  ∃ r, subnetMask p = some r ∧ ∀ j : Fin 128, r.m_addr.s6_addr.bit j = decide ((j : ℕ) < p)

/-- What `networdAddress` is to return. -/
def NetwordAddressRight : Prop :=
  ∃ r, a.networdAddress p = some r ∧
    ∀ j : Fin 128, r.m_addr.s6_addr.bit j = (a.m_addr.s6_addr.bit j && decide ((j : ℕ) < p))

/-- What `broadcastAddress` is to return. -/
def BroadcastAddressRight : Prop :=
  ∃ r, a.broadcastAddress p = some r ∧
    ∀ j : Fin 128, r.m_addr.s6_addr.bit j = (a.m_addr.s6_addr.bit j || !decide ((j : ℕ) < p))

theorem exists_map_iff {α β : Type*} {o : Option α} {f : α → β} {P : β → Prop} :
    (∃ b, o.map f = some b ∧ P b) ↔ ∃ x, o = some x ∧ P (f x) := by
  cases o <;> simp

/-- The mask is right as long as its boundary byte is in the array. -/
theorem subnetMaskRight_iff : SubnetMaskRight p ↔ p < 128 := by
  unfold SubnetMaskRight subnetMask
  rw [exists_map_iff]
  by_cases hp : p < 128
  · have hbyte : p / 8 < 16 := by omega
    refine iff_of_true ⟨In6Addr.net p, ?_, In6Addr.bit_net p⟩ hp
    rw [In6Addr.store_eq hbyte, Option.bind_some, In6Addr.fill_eq (by omega),
      createMask_8 _ (Nat.mod_lt p (by decide))]
    congr 1
    ext k : 1
    rcases Nat.lt_trichotomy k (p / 8) with hlt | heq | hgt
    · rw [if_pos (by omega), In6Addr.net_of_lt hlt]
      rfl
    · rw [if_neg (by omega), if_pos heq, In6Addr.net_of_eq heq]
    · rw [if_neg (by omega), if_neg (by omega), In6Addr.net_of_gt hgt]
  · rw [In6Addr.store_eq_none (by omega)]
    simp [hp]

/-- The bits of the network, byte by byte. -/
theorem bit_and_net (addr : In6Addr) (j : Fin 128) :
    (addr.bit j && decide ((j : ℕ) < p)) =
      In6Addr.bit (fun k => addr k &&& In6Addr.net p k) j := by
  rw [← In6Addr.bit_net]
  exact (BitVec.getMsbD_and ..).symm

theorem bit_or_not_net (addr : In6Addr) (j : Fin 128) :
    (addr.bit j || !decide ((j : ℕ) < p)) =
      In6Addr.bit (fun k => addr k ||| ~~~In6Addr.net p k) j := by
  rw [← In6Addr.bit_net]
  unfold In6Addr.bit
  rw [BitVec.getMsbD_or, BitVec.getMsbD_not]
  simp [Nat.mod_lt]

theorem broadcastAddressRight_iff : a.BroadcastAddressRight p ↔ p < 128 := by
  unfold BroadcastAddressRight broadcastAddress
  rw [exists_map_iff, In6Addr.writeFrom_eq]
  by_cases hp : p < 128
  · rw [if_pos hp, createMask_8 _ (Nat.mod_lt p (by decide))]
    refine iff_of_true ⟨_, rfl, fun j => ?_⟩ hp
    rw [bit_or_not_net]
    refine In6Addr.forall_bit_iff.mpr (fun k => ?_) j
    dsimp only
    rcases Nat.lt_trichotomy k (p / 8) with hlt | heq | hgt
    · rw [if_pos hlt, In6Addr.net_of_lt hlt]
      simp
    · rw [if_neg (by omega), if_pos heq, In6Addr.net_of_eq heq, BitVec.not_not]
    · rw [if_neg (by omega), if_neg (by omega), In6Addr.net_of_gt hgt]
      exact BitVec.or_allOnes.symm
  · rw [if_neg hp]
    simp [hp]

/-- The network is right only where the boundary byte is zero: there the mask of the host part
stands where the mask of the network should. -/
theorem networdAddressRight_iff :
    a.NetwordAddressRight p ↔ ∃ h : p < 128, a.m_addr.s6_addr ⟨p / 8, by omega⟩ = 0 := by
  unfold NetwordAddressRight networdAddress
  rw [exists_map_iff, In6Addr.writeFrom_eq]
  by_cases hp : p < 128
  · rw [if_pos hp, createMask_8 _ (Nat.mod_lt p (by decide))]
    simp only [Option.some.injEq, exists_eq_left', bit_and_net, In6Addr.forall_bit_iff]
    constructor
    · intro h
      refine ⟨hp, ?_⟩
      have hboundary := h ⟨p / 8, by omega⟩
      rw [if_neg (lt_irrefl _), if_pos rfl, In6Addr.net_of_eq rfl] at hboundary
      exact and_eq_and_not_iff.mp hboundary
    · rintro ⟨_, hzero⟩ k
      rcases Nat.lt_trichotomy k (p / 8) with hlt | heq | hgt
      · rw [if_pos hlt, In6Addr.net_of_lt hlt]
        exact BitVec.and_allOnes.symm
      · have hk : k = ⟨p / 8, by omega⟩ := Fin.ext heq
        rw [← hk] at hzero
        rw [if_neg (by omega), if_pos heq, In6Addr.net_of_eq heq]
        exact and_eq_and_not_iff.mpr hzero
      · rw [if_neg (by omega), if_neg (by omega), In6Addr.net_of_gt hgt]
        simp
  · rw [if_neg hp]
    simp [hp]

/-- **When the subnets of an IPv6 address are right.** The three functions stay in the array and
return what they should for the prefix lengths below 128, `networdAddress` only when the byte at the
boundary is zero. -/
theorem prefix_right_iff :
    (SubnetMaskRight p ∧ a.NetwordAddressRight p ∧ a.BroadcastAddressRight p ↔
        ∃ h : p < 128, a.m_addr.s6_addr ⟨p / 8, by omega⟩ = 0) ∧
      (SubnetMaskRight p ↔ p < 128) ∧
      (a.NetwordAddressRight p ↔ ∃ h : p < 128, a.m_addr.s6_addr ⟨p / 8, by omega⟩ = 0) ∧
      (a.BroadcastAddressRight p ↔ p < 128) := by
  have hmask := subnetMaskRight_iff p
  have hnetword := a.networdAddressRight_iff p
  have hbroadcast := a.broadcastAddressRight_iff p
  refine ⟨?_, hmask, hnetword, hbroadcast⟩
  rw [hmask, hnetword, hbroadcast]
  constructor
  · exact fun h => h.2.1
  · exact fun h => ⟨h.1, h, h.1⟩

/-- The network of an address that begins with the byte `0xfe` and has a prefix of 4 bits keeps the
wrong half of the byte, and a prefix length of 128 leads outside the array. -/
theorem not_prefix_right :
    (∃ r, (ofBytes (fun _ => 0xfe) 80).networdAddress 4 = some r ∧ r.m_addr.s6_addr 0 = 0x0e) ∧
      ¬(ofBytes (fun _ => 0xfe) 80).NetwordAddressRight 4 ∧
      subnetMask 128 = none ∧ ¬SubnetMaskRight 128 ∧
      (ofBytes (fun _ => 0xfe) 80).networdAddress 128 = none ∧
      (ofBytes (fun _ => 0xfe) 80).broadcastAddress 128 = none := by
  refine ⟨⟨_, rfl, by decide⟩, ?_, rfl, nofun, rfl, rfl⟩
  rintro ⟨r, hr, hbits⟩
  obtain rfl := Option.some.inj hr
  exact absurd (hbits 0) (by decide)

end IPv6Address

end Muhui.Address
