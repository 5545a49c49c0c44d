/-
  Paths of `UnixAddress` (`address.cc`).

  The constructor copies the path into an array of 108 bytes and stores its length without the
  terminator, and a path is as long as the array at most.  The readers look for the terminator, so
  one that fills the array is read beyond its end (`getPath_ofPath`).

  Reading bytes that are not in the array is `none`.
-/
import Mathlib.Algebra.Ring.Nat
import Mathlib.Data.List.Basic

namespace Muhui.Address

/-- `sizeof(sun_path)` and `offsetof(sockaddr_un, sun_path)` -/
def sunPathSize : ℕ := 108
def sunPathOffset : ℕ := 2

/-- The bytes at the beginning of an array of `n` bytes that are 0 otherwise. -/
def pad (n : ℕ) (bytes : List UInt8) : List UInt8 :=
  bytes.take n ++ List.replicate (n - bytes.length) 0

theorem length_pad (n : ℕ) (bytes : List UInt8) : (pad n bytes).length = n := by
  rw [pad, List.length_append, List.length_take, List.length_replicate]
  omega

/-- The characters up to the terminator, if there is one. -/
def cString (bytes : List UInt8) : Option (List UInt8) :=
  if 0 ∈ bytes then some (bytes.takeWhile (· ≠ 0)) else none

/-- A `sockaddr_un` with its length, a `socklen_t`. -/
structure UnixAddress where
  sun_path : List UInt8
  m_length : BitVec 32
  size : sun_path.length = sunPathSize

namespace UnixAddress

/-- `UnixAddress(path)` from the check of the length on; `none` is the exception. `path.c_str()`
ends with a terminator. -/
def copy (path : List UInt8) (m_length : BitVec 32) : Option UnixAddress :=
  if m_length.toNat > sunPathSize then none
  else
    some
      { sun_path := pad sunPathSize ((path ++ [0]).take m_length.toNat)
        m_length := m_length + BitVec.ofNat 32 sunPathOffset
        size := length_pad _ _ }

/-- `UnixAddress(path)` -/
def ofPath (path : List UInt8) : Option UnixAddress :=
  let m_length : BitVec 32 := BitVec.ofNat 32 (path.length + 1)
  copy path (if ¬ path.isEmpty ∧ path.head? ≠ some 0 then m_length - 1 else m_length)

def getAddrLen (a : UnixAddress) : ℕ := a.m_length.toNat

/-- The name is one of the abstract namespace. -/
def isAbstract (a : UnixAddress) : Prop :=
  a.m_length.toNat > sunPathOffset ∧ a.sun_path.head? = some 0

instance (a : UnixAddress) : Decidable a.isAbstract := inferInstanceAs (Decidable (_ ∧ _))

/-- `std::string(m_addr.sun_path + 1, m_length - offsetof(sockaddr_un, sun_path) - 1)` behind a
backslash and a `0`. -/
def abstractName (a : UnixAddress) : Option (List UInt8) :=
  let n := a.m_length.toNat - sunPathOffset - 1
  if 1 + n ≤ sunPathSize then
    some ([92, 48] ++ (a.sun_path.drop 1).take n)
  else none

def getPath (a : UnixAddress) : Option (List UInt8) :=
  if a.isAbstract then a.abstractName else cString a.sun_path

/-- What `insert` writes. -/
def insert (a : UnixAddress) : Option (List UInt8) :=
  if a.isAbstract then
    a.abstractName.bind fun name => (cString a.sun_path).map fun path => name ++ path
  else cString a.sun_path

/-- What the constructor promises of a path: an exception, or an address from which the path and its
length are read back, and in which the readers stay. -/
def Right (path : List UInt8) : Prop :=
  ∀ a, ofPath path = some a →
    a.getPath = some path ∧ a.getAddrLen = sunPathOffset + path.length ∧ a.insert ≠ none

/-! ### Arrays -/

variable {path bytes : List UInt8} {n : ℕ}

theorem cString_eq_none (h : 0 ∉ bytes) : cString bytes = none := if_neg h

/-- Bytes that leave room for a terminator. -/
theorem cString_pad (h : 0 ∉ bytes) (hn : bytes.length < n) :
    cString (pad n bytes) = some bytes := by
  have htake : bytes.take n = bytes := List.take_of_length_le (Nat.le_of_lt hn)
  obtain ⟨k, hk⟩ : ∃ k, n - bytes.length = k + 1 := ⟨n - bytes.length - 1, by omega⟩
  have hall : ∀ b ∈ bytes, decide (b ≠ 0) = true := fun b hb =>
    decide_eq_true fun heq => h (heq ▸ hb)
  rw [pad, htake, hk, List.replicate_succ, cString,
    if_pos (List.mem_append_right _ List.mem_cons_self), List.takeWhile_append_of_pos hall]
  simp

/-- Bytes that fill the array. -/
theorem pad_of_length (h : bytes.length = n) : pad n bytes = bytes := by
  rw [pad, List.take_of_length_le (Nat.le_of_eq h), h, Nat.sub_self, List.replicate_zero,
    List.append_nil]

/-! ### Paths -/

/-- What is left of the path when its length is cut down to a `socklen_t`. -/
def kept (path : List UInt8) : List UInt8 := path.take (path.length % 2 ^ 32)

theorem length_kept (path : List UInt8) : (kept path).length = path.length % 2 ^ 32 := by
  rw [kept, List.length_take]
  exact Nat.min_eq_left (Nat.mod_le _ _)

theorem notMem_kept (h : 0 ∉ path) : 0 ∉ kept path := fun hmem => h (List.mem_of_mem_take hmem)

section Constructor

variable (hne : path ≠ []) (hzero : 0 ∉ path)
include hne hzero

/-- The length without the terminator. -/
theorem ofPath_eq : ofPath path = copy path (BitVec.ofNat 32 path.length) := by
  have hhead : path.head? ≠ some 0 := fun h => hzero (List.mem_of_head? h)
  have hempty : ¬ path.isEmpty := fun h => hne (List.isEmpty_iff.mp h)
  have hlength : BitVec.ofNat 32 path.length + 1 - 1 = BitVec.ofNat 32 path.length :=
    BitVec.add_sub_cancel _ _
  unfold ofPath
  dsimp only
  rw [if_pos ⟨hempty, hhead⟩, BitVec.ofNat_add]
  exact congrArg (copy path) hlength

theorem ofPath_eq_none_iff : ofPath path = none ↔ path.length % 2 ^ 32 > sunPathSize := by
  rw [ofPath_eq hne hzero, copy]
  split_ifs with hlong
  all_goals rw [BitVec.toNat_ofNat] at hlong
  · exact iff_of_true rfl hlong
  · exact iff_of_false nofun hlong

/-- An address that is made from a path. -/
theorem of_ofPath {a : UnixAddress} (h : ofPath path = some a) :
    path.length % 2 ^ 32 ≤ sunPathSize ∧ a.sun_path = pad sunPathSize (kept path) ∧
      a.getAddrLen = path.length % 2 ^ 32 + sunPathOffset := by
  rw [ofPath_eq hne hzero, copy] at h
  split_ifs at h with hlong
  rw [BitVec.toNat_ofNat] at hlong
  obtain rfl := Option.some.inj h
  have hle : path.length % 2 ^ 32 ≤ path.length := Nat.mod_le _ _
  refine ⟨Nat.not_lt.mp hlong, ?_, ?_⟩
  · dsimp only
    rw [BitVec.toNat_ofNat, List.take_append_of_le_length hle]
    rfl
  · show (BitVec.ofNat 32 path.length + BitVec.ofNat 32 sunPathOffset).toNat = _
    unfold sunPathSize at hlong
    unfold sunPathOffset
    rw [BitVec.toNat_add, BitVec.toNat_ofNat, BitVec.toNat_ofNat]
    omega

/-- It is not one of the abstract namespace. -/
theorem not_isAbstract {a : UnixAddress} (h : ofPath path = some a) : ¬ a.isAbstract := by
  obtain ⟨-, hsun, hlen⟩ := of_ofPath hne hzero h
  rintro ⟨hlong, hhead⟩
  unfold getAddrLen at hlen
  -- the first byte is one of the path
  have hkept : kept path ≠ [] := by
    rw [Ne, ← List.length_eq_zero_iff, length_kept]
    omega
  have hfirst : (pad sunPathSize (kept path)).head? = (kept path).head? := by
    obtain ⟨b, bs, hb⟩ := List.exists_cons_of_ne_nil hkept
    rw [hb]
    rfl
  rw [hsun, hfirst] at hhead
  exact notMem_kept hzero (List.mem_of_head? hhead)

/-- What is read back: the bytes that have been kept, unless they fill the array. -/
theorem getPath_ofPath {a : UnixAddress} (h : ofPath path = some a) :
    a.getPath = (if path.length % 2 ^ 32 < sunPathSize then some (kept path) else none) ∧
      a.insert = a.getPath := by
  have hnot := not_isAbstract hne hzero h
  obtain ⟨hle, hsun, -⟩ := of_ofPath hne hzero h
  unfold getPath insert
  rw [if_neg hnot, if_neg hnot, hsun]
  refine ⟨?_, rfl⟩
  split_ifs with hroom
  · exact cString_pad (notMem_kept hzero) (by rw [length_kept]; exact hroom)
  · have hfull : (kept path).length = sunPathSize := by
      rw [length_kept]
      omega
    rw [pad_of_length hfull]
    exact cString_eq_none (notMem_kept hzero)

/-- The promise is kept for paths that leave room for the terminator, and for those that are
rejected: all longer ones but those whose length is cut down to the size of the array or less. -/
theorem right_ofPath_iff :
    Right path ↔ path.length < sunPathSize ∨ sunPathSize < path.length % 2 ^ 32 := by
  constructor
  · intro h
    by_cases hlong : sunPathSize < path.length % 2 ^ 32
    · exact .inr hlong
    obtain ⟨a, ha⟩ : ∃ a, ofPath path = some a :=
      Option.ne_none_iff_exists'.mp fun hnone => hlong ((ofPath_eq_none_iff hne hzero).mp hnone)
    obtain ⟨hpath, hlen, -⟩ := h a ha
    obtain ⟨-, -, hcut⟩ := of_ofPath hne hzero ha
    rw [(getPath_ofPath hne hzero ha).1] at hpath
    split_ifs at hpath with hroom
    left
    omega
  · rintro (hshort | hlong) a ha
    · obtain ⟨-, -, hlen⟩ := of_ofPath hne hzero ha
      obtain ⟨hpath, hinsert⟩ := getPath_ofPath hne hzero ha
      have hsmall : path.length % 2 ^ 32 = path.length := Nat.mod_eq_of_lt (by
        unfold sunPathSize at hshort
        omega)
      have hkept : kept path = path := by
        rw [kept, hsmall]
        exact List.take_length
      rw [hsmall, if_pos hshort, hkept] at hpath
      refine ⟨hpath, by rw [hlen, hsmall, Nat.add_comm], ?_⟩
      rw [hinsert, hpath]
      exact Option.some_ne_none path
    · cases ((ofPath_eq_none_iff hne hzero).mpr hlong).symm.trans ha

end Constructor

/-- `right_ofPath_iff` for the path `/tmp/a`. -/
theorem right_ofPath_iff_tmp :
    let path : List UInt8 := [47, 116, 109, 112, 47, 97]
    Right path ↔ path.length < sunPathSize ∨ sunPathSize < path.length % 2 ^ 32 :=
  right_ofPath_iff (by decide) (by decide)

/-- The longest path that is accepted has no terminator, and `getPath` reads on behind it. -/
theorem not_right_of_full :
    let path : List UInt8 := List.replicate 108 97
    (path ≠ [] ∧ 0 ∉ path) ∧ (∃ a, ofPath path = some a ∧ a.getPath = none) ∧ ¬ Right path := by
  intro path
  have hne : path ≠ [] := List.cons_ne_nil _ _
  have hzero : 0 ∉ path := fun h => absurd (List.eq_of_mem_replicate h) (by decide)
  obtain ⟨a, ha⟩ : ∃ a, ofPath path = some a := by
    refine Option.ne_none_iff_exists'.mp fun hnone => ?_
    exact absurd ((ofPath_eq_none_iff hne hzero).mp hnone) (by decide)
  have hpath : a.getPath = none := (getPath_ofPath hne hzero ha).1
  refine ⟨⟨hne, hzero⟩, ⟨a, ha, hpath⟩, fun h => ?_⟩
  cases hpath.symm.trans (h a ha).1

end UnixAddress

end Muhui.Address
