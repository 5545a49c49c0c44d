/-
  Subnets of IPv4 addresses (`address.cc`).

  An `IPv4Address` holds a `sockaddr_in`, whose port and address are in network order.  `CreateMask`
  makes the mask of the host part (`createMask_32`), except for the prefix length 0, where the shift
  by the full width of an `int` leaves nothing: the shift count is taken modulo 32.
-/
import Muhui.Encoding.Mask
import Muhui.Encoding.Signed
import Muhui.Encoding.Word

namespace Muhui.Address

/-- `byteswapOnLittleEndian(t)` on a machine that is little-endian. -/
def byteswapOnLittleEndian {n : ℕ} (t : BitVec n) : BitVec n :=
  BitVec.ofNat n (byteswap (n / 8) t.toNat)

/-- `CreateMask<T>(bits)` for a `T` of `w` bits.  The width less the bits is a `size_t`, the shift
and the difference are an `int`. -/
def createMask (w bits : ℕ) : BitVec w :=
  BitVec.ofInt w (signed 32 (signed 32 (2 ^ (unsigned 64 (w - bits) % 32)) - 1))

/-- `sockaddr_in` -/
structure SockaddrIn where
  sin_family : BitVec 16
  sin_port : BitVec 16
  s_addr : BitVec 32
  deriving DecidableEq

structure IPv4Address where
  m_addr : SockaddrIn
  deriving DecidableEq

/-- `AF_INET` -/
def AF_INET : BitVec 16 := 2

namespace IPv4Address

/-- `IPv4Address(address, port)` -/
def ofHost (address : BitVec 32) (port : BitVec 16) : IPv4Address where
  m_addr :=
    { sin_family := AF_INET
      sin_port := byteswapOnLittleEndian port
      s_addr := byteswapOnLittleEndian address }

/-- The address in host order, as `insert` reads it. -/
def host (a : IPv4Address) : BitVec 32 := byteswapOnLittleEndian a.m_addr.s_addr

def broadcastAddress (a : IPv4Address) (prefix_len : ℕ) : Option IPv4Address :=
  if prefix_len > 32 then none
  else
    some ⟨{ a.m_addr with
      s_addr := a.m_addr.s_addr ||| byteswapOnLittleEndian (createMask 32 prefix_len) }⟩

def networdAddress (a : IPv4Address) (prefix_len : ℕ) : Option IPv4Address :=
  if prefix_len > 32 then none
  else
    some ⟨{ a.m_addr with
      s_addr := a.m_addr.s_addr &&& byteswapOnLittleEndian (createMask 32 prefix_len) }⟩

def subnetMask (prefix_len : ℕ) : Option IPv4Address :=
  some ⟨{ sin_family := AF_INET, sin_port := 0
          s_addr := ~~~byteswapOnLittleEndian (createMask 32 prefix_len) }⟩

end IPv4Address

/-! ### Byte order -/

variable {n i : ℕ}

theorem getLsbD_byteswapOnLittleEndian (h : 8 ∣ n) (x : BitVec n) (hi : i < n) :
    (byteswapOnLittleEndian x).getLsbD i = x.getLsbD (8 * (n / 8 - 1 - i / 8) + i % 8) := by
  obtain ⟨w, rfl⟩ := h
  unfold byteswapOnLittleEndian
  rw [BitVec.getLsbD_ofNat, Nat.mul_div_cancel_left w (by decide), testBit_byteswap hi,
    BitVec.testBit_toNat]
  simp [hi]

theorem byteswapOnLittleEndian_byteswapOnLittleEndian (h : 8 ∣ n) (x : BitVec n) :
    byteswapOnLittleEndian (byteswapOnLittleEndian x) = x := by
  apply BitVec.eq_of_getLsbD_eq
  intro i hi
  have hflip : 8 * (n / 8 - 1 - i / 8) + i % 8 < n := by omega
  rw [getLsbD_byteswapOnLittleEndian h _ hi, getLsbD_byteswapOnLittleEndian h _ hflip]
  congr 1
  omega

theorem byteswapOnLittleEndian_not (h : 8 ∣ n) (x : BitVec n) :
    byteswapOnLittleEndian (~~~x) = ~~~byteswapOnLittleEndian x := by
  apply BitVec.eq_of_getLsbD_eq
  intro i hi
  have hflip : 8 * (n / 8 - 1 - i / 8) + i % 8 < n := by omega
  rw [getLsbD_byteswapOnLittleEndian h _ hi, BitVec.getLsbD_not, BitVec.getLsbD_not,
    getLsbD_byteswapOnLittleEndian h _ hi]
  simp [hi, hflip]

theorem byteswapOnLittleEndian_and (h : 8 ∣ n) (x y : BitVec n) :
    byteswapOnLittleEndian (x &&& y) = byteswapOnLittleEndian x &&& byteswapOnLittleEndian y := by
  apply BitVec.eq_of_getLsbD_eq
  intro i hi
  simp only [getLsbD_byteswapOnLittleEndian h _ hi, BitVec.getLsbD_and]

theorem byteswapOnLittleEndian_or (h : 8 ∣ n) (x y : BitVec n) :
    byteswapOnLittleEndian (x ||| y) = byteswapOnLittleEndian x ||| byteswapOnLittleEndian y := by
  apply BitVec.eq_of_getLsbD_eq
  intro i hi
  simp only [getLsbD_byteswapOnLittleEndian h _ hi, BitVec.getLsbD_or]

/-! ### The masks -/

/-- `CreateMask` is the mask of the host part. -/
theorem createMask_32 : ∀ p ≤ 32, p ≠ 0 → createMask 32 p = hostMask 32 p := by decide

/-- A shift by 32 shifts by 0. -/
theorem createMask_32_zero : createMask 32 0 = 0 := by decide

namespace IPv4Address

variable (a : IPv4Address) (p : ℕ)

theorem host_or (m : BitVec 32) :
    host ⟨{ a.m_addr with s_addr := a.m_addr.s_addr ||| byteswapOnLittleEndian m }⟩ =
      a.host ||| m := by
  unfold host
  rw [byteswapOnLittleEndian_or (by decide),
    byteswapOnLittleEndian_byteswapOnLittleEndian (by decide)]

theorem host_and (m : BitVec 32) :
    host ⟨{ a.m_addr with s_addr := a.m_addr.s_addr &&& byteswapOnLittleEndian m }⟩ =
      a.host &&& m := by
  unfold host
  rw [byteswapOnLittleEndian_and (by decide),
    byteswapOnLittleEndian_byteswapOnLittleEndian (by decide)]

theorem host_subnetMask (m : BitVec 32) :
    host ⟨{ sin_family := AF_INET, sin_port := 0, s_addr := ~~~byteswapOnLittleEndian m }⟩ =
      ~~~m := by
  unfold host
  rw [byteswapOnLittleEndian_not (by decide),
    byteswapOnLittleEndian_byteswapOnLittleEndian (by decide)]

/-! ### Subnets -/

/-- What `subnetMask` is to return. -/
def SubnetMaskRight : Prop :=
  if p ≤ 32 then ∃ r, subnetMask p = some r ∧ r.host = netMask 32 p else subnetMask p = none

/-- What `networdAddress` is to return. -/
def NetwordAddressRight : Prop :=
  if p ≤ 32 then
    ∃ r, a.networdAddress p = some r ∧ r.host = a.host &&& netMask 32 p ∧ r.host ≤ a.host ∧
      r.m_addr.sin_port = a.m_addr.sin_port ∧ r.m_addr.sin_family = a.m_addr.sin_family
  else a.networdAddress p = none

/-- What `broadcastAddress` is to return. -/
def BroadcastAddressRight : Prop :=
  if p ≤ 32 then
    ∃ r, a.broadcastAddress p = some r ∧ r.host = a.host ||| ~~~netMask 32 p ∧ a.host ≤ r.host ∧
      r.m_addr.sin_port = a.m_addr.sin_port ∧ r.m_addr.sin_family = a.m_addr.sin_family
  else a.broadcastAddress p = none

theorem subnetMaskRight_iff : SubnetMaskRight p ↔ p ≠ 0 ∧ p ≤ 32 := by
  unfold SubnetMaskRight subnetMask
  split_ifs with hp
  · simp only [Option.some.injEq, exists_eq_left', host_subnetMask, hp, and_true]
    by_cases hzero : p = 0
    · subst hzero
      rw [createMask_32_zero, netMask_zero]
      decide
    · rw [createMask_32 p hp hzero]
      exact iff_of_true rfl hzero
  · simp [hp]

theorem networdAddressRight_iff :
    a.NetwordAddressRight p ↔ p = 0 ∨ 32 < p ∨ a.host = 0 := by
  unfold NetwordAddressRight networdAddress
  by_cases hp : p ≤ 32
  · rw [if_pos hp, if_neg (not_lt.mpr hp)]
    simp only [Option.some.injEq, exists_eq_left', host_and, and_le_left, and_self, and_true]
    by_cases hzero : p = 0
    · subst hzero
      rw [createMask_32_zero, netMask_zero]
      simp
    · -- the mask of the host part stands where the mask of the network should
      have hnet := @and_eq_and_not_iff 32 a.host (hostMask 32 p)
      rw [createMask_32 p hp hzero, netMask, hnet]
      simp [hzero, not_lt.mpr hp]
  · rw [if_neg hp, if_pos (not_le.mp hp)]
    simp [not_le.mp hp]

theorem broadcastAddressRight_iff :
    a.BroadcastAddressRight p ↔ p ≠ 0 ∨ a.host = BitVec.allOnes 32 := by
  unfold BroadcastAddressRight broadcastAddress
  by_cases hp : p ≤ 32
  · rw [if_pos hp, if_neg (not_lt.mpr hp)]
    simp only [Option.some.injEq, exists_eq_left', host_or, left_le_or, and_self, and_true]
    by_cases hzero : p = 0
    · subst hzero
      rw [createMask_32_zero, netMask_zero, BitVec.not_zero, BitVec.or_allOnes]
      have hkeep : a.host ||| (0 : BitVec 32) = a.host := BitVec.or_zero
      rw [hkeep]
      simp
    · rw [createMask_32 p hp hzero, netMask, BitVec.not_not]
      exact iff_of_true rfl (Or.inl hzero)
  · rw [if_neg hp, if_pos (not_le.mp hp)]
    have hzero : p ≠ 0 := by omega
    simp [hzero]

/-- **When the subnets of an IPv4 address are right.** The three functions together are right for
the address `0.0.0.0` and the prefix lengths from 1 to 32 only. -/
theorem subnets_right_iff :
    (SubnetMaskRight p ∧ a.NetwordAddressRight p ∧ a.BroadcastAddressRight p ↔
        p ≠ 0 ∧ p ≤ 32 ∧ a.host = 0) ∧
      (SubnetMaskRight p ↔ p ≠ 0 ∧ p ≤ 32) ∧
      (a.NetwordAddressRight p ↔ p = 0 ∨ 32 < p ∨ a.host = 0) ∧
      (a.BroadcastAddressRight p ↔ p ≠ 0 ∨ a.host = BitVec.allOnes 32) := by
  have hmask := subnetMaskRight_iff p
  have hnetword := a.networdAddressRight_iff p
  have hbroadcast := a.broadcastAddressRight_iff p
  refine ⟨?_, hmask, hnetword, hbroadcast⟩
  rw [hmask, hnetword, hbroadcast]
  constructor
  · rintro ⟨⟨hzero, hp⟩, hhost, -⟩
    have hhost := (hhost.resolve_left hzero).resolve_left (not_lt.mpr hp)
    exact ⟨hzero, hp, hhost⟩
  · rintro ⟨hzero, hp, hhost⟩
    exact ⟨⟨hzero, hp⟩, Or.inr (Or.inr hhost), Or.inl hzero⟩

/-- The network of `192.168.1.10/24` comes out as `0.0.0.10`, the mask of length 0 as
`255.255.255.255`, and a mask of length 33 is not rejected. -/
theorem not_subnets_right :
    (networdAddress (ofHost 0xc0a8010a 80) 24).map host = some 0x0000000a ∧
      ¬(ofHost 0xc0a8010a 80).NetwordAddressRight 24 ∧
      (subnetMask 0).map host = some 0xffffffff ∧ ¬SubnetMaskRight 0 ∧
      subnetMask 33 ≠ none ∧ ¬SubnetMaskRight 33 := by
  refine ⟨by decide, fun h => ?_, by decide, fun h => ?_, nofun, nofun⟩
  · obtain ⟨r, hr, hhost, -⟩ := h
    obtain rfl := Option.some.inj hr
    revert hhost
    decide
  · obtain ⟨r, hr, hhost⟩ := h
    obtain rfl := Option.some.inj hr
    revert hhost
    decide

end IPv4Address

end Muhui.Address
