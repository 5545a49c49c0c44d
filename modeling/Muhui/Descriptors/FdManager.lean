/-
  `FdManager` (`fd_manager.cc`): the vector of contexts, indexed by descriptor.

  `get` has two critical sections: `lookup` under the read lock, and `create` under the write lock
  when the context is missing and shall be made.  A context is the number of the `FdCtx` object, in
  the order in which they were constructed.  `none` is an access outside the vector.

  Both tests compare the size as an `int` with the descriptor, and let the descriptor that is equal
  to the size through, as well as the negative ones.
-/
import Muhui.Http.Bytes
import Muhui.Transition.Run

namespace Muhui.Descriptors

open Http (toInt toInt_of_lt)

structure FdManager where
  datas : List (Option ℕ)
  /-- The contexts that have been constructed. -/
  made : ℕ
  deriving DecidableEq

/-- How the first section of `get` ends: it returns, or the context is to be created. -/
inductive Lookup
  | returns (ctx : Option ℕ)
  | misses
  deriving DecidableEq

namespace FdManager

def init : FdManager := { datas := List.replicate 64 none, made := 0 }

/-- `m_datas[fd]`, with the descriptor converted to an index. -/
def slot (m : FdManager) (fd : ℤ) : Option (Option ℕ) :=
  if 0 ≤ fd then m.datas[fd.toNat]? else none

/-- The first section of `get(fd, auto_create)`. -/
def lookup (m : FdManager) (fd : ℤ) (auto_create : Bool) : Option Lookup :=
  if toInt m.datas.length < fd then
    if auto_create then some .misses else some (.returns none)
  else
    (m.slot fd).map fun ctx =>
      if ctx.isSome || !auto_create then .returns ctx else .misses

/-- `m_datas.resize(n)` -/
def resize (m : FdManager) (n : ℕ) : FdManager :=
  { m with datas := m.datas.take n ++ List.replicate (n - m.datas.length) none }

/-- `m_datas[fd] = ctx` -/
def assign (m : FdManager) (fd : ℤ) (ctx : Option ℕ) : Option FdManager :=
  (m.slot fd).map fun _ => { m with datas := m.datas.set fd.toNat ctx }

/-- The second section of `get(fd, true)`, which returns the new context.  A negative `fd * 1.5` has
no conversion to a size. -/
def create (m : FdManager) (fd : ℤ) : Option (FdManager × ℕ) :=
  let resized :=
    if toInt m.datas.length ≤ fd then
      if 0 ≤ fd then some (m.resize (3 * fd / 2).toNat) else none
    else some m
  (resized.bind fun m' => m'.assign fd (some m.made)).map fun m' =>
    ({ m' with made := m.made + 1 }, m.made)

def del (m : FdManager) (fd : ℤ) : Option FdManager :=
  if toInt m.datas.length < fd then some m else m.assign fd none

/-! ### What the functions do to a vector of moderate size -/

/-- The entry of a descriptor; there is none outside the vector. -/
def entry (m : FdManager) (fd : ℤ) : Option ℕ := (m.slot fd).join

/-- The size is an `int`, and no smaller than at the beginning. -/
structure Sized (m : FdManager) : Prop where
  initial : 64 ≤ m.datas.length
  int : m.datas.length < 2 ^ 31

theorem sized_init : init.Sized := ⟨by decide, by decide⟩

variable {m m' : FdManager} {fd fd' : ℤ}

theorem slot_eq_some_iff : (∃ ctx, m.slot fd = some ctx) ↔ 0 ≤ fd ∧ fd < m.datas.length := by
  unfold slot
  split_ifs with h
  · rw [← Option.isSome_iff_exists, isSome_getElem?]
    omega
  · simp [h]

theorem entry_of_le (h : (m.datas.length : ℤ) ≤ fd) : m.entry fd = none := by
  unfold entry slot
  split_ifs with h0
  · rw [List.getElem?_eq_none (by omega)]
    rfl
  · rfl

theorem entry_of_neg (h : fd < 0) : m.entry fd = none := by
  unfold entry slot
  rw [if_neg (by omega)]
  rfl

/-- What `lookup` sees, except at the size itself. -/
theorem lookup_eq (hm : m.Sized) (h0 : 0 ≤ fd) (hsize : fd ≠ m.datas.length) (auto_create : Bool) :
    m.lookup fd auto_create =
      some (if (m.entry fd).isSome || !auto_create then .returns (m.entry fd) else .misses) := by
  unfold lookup
  rw [toInt_of_lt hm.int]
  by_cases hlt : (m.datas.length : ℤ) < fd
  · rw [if_pos hlt, entry_of_le hlt.le]
    cases auto_create <;> rfl
  · rw [if_neg hlt]
    -- the size is the only descriptor outside that the test lets through
    obtain ⟨ctx, hctx⟩ := slot_eq_some_iff.mpr ⟨h0, show fd < m.datas.length by omega⟩
    have hentry : m.entry fd = ctx := by
      rw [entry, hctx]
      rfl
    rw [hctx, Option.map_some, hentry]

/-- Exactly the negative descriptors and the size itself lead outside the vector. -/
theorem lookup_eq_none_iff (hm : m.Sized) {auto_create : Bool} :
    m.lookup fd auto_create = none ↔ fd < 0 ∨ fd = m.datas.length := by
  constructor
  · intro h
    by_contra hnot
    rw [not_or, not_lt] at hnot
    rw [lookup_eq hm hnot.1 hnot.2] at h
    cases h
  · intro h
    have hslot : m.slot fd = none := by
      rw [Option.eq_none_iff_forall_ne_some]
      intro ctx hctx
      have := slot_eq_some_iff.mp ⟨ctx, hctx⟩
      omega
    unfold lookup
    rw [toInt_of_lt hm.int, if_neg (by omega), hslot]
    rfl

theorem entry_set {n : ℕ} (ctx : Option ℕ) (hn : n < m.datas.length) (h0 : 0 ≤ fd') :
    FdManager.entry { m with datas := m.datas.set n ctx } fd' =
      if fd' = n then ctx else m.entry fd' := by
  unfold entry slot
  rw [if_pos h0, if_pos h0]
  by_cases h : fd' = n
  · rw [if_pos h, h, Int.toNat_natCast, List.getElem?_set_self hn]
    rfl
  · rw [if_neg h, List.getElem?_set_ne (by omega)]

theorem entry_resize {n : ℕ} (hn : m.datas.length ≤ n) (fd' : ℤ) :
    (m.resize n).entry fd' = m.entry fd' := by
  unfold entry slot resize
  split_ifs with h0
  · rw [List.take_of_length_le hn]
    by_cases hlt : fd'.toNat < m.datas.length
    · rw [List.getElem?_append_left hlt]
    · have hnone : m.datas[fd'.toNat]? = none := List.getElem?_eq_none (by omega)
      rw [List.getElem?_append_right (by omega), hnone]
      -- the slots that were added are empty
      cases h : (List.replicate (n - m.datas.length) (none : Option ℕ))[fd'.toNat - m.datas.length]?
        with
      | none => rfl
      | some ctx =>
        have hmem := List.mem_of_getElem? h
        rw [(List.mem_replicate.mp hmem).2]
        rfl
  · rfl

theorem length_resize {n : ℕ} (hn : m.datas.length ≤ n) : (m.resize n).datas.length = n := by
  simp only [resize, List.length_append, List.length_take, List.length_replicate]
  omega

theorem assign_eq {ctx : Option ℕ} (h0 : 0 ≤ fd) (hlt : fd < m.datas.length) :
    m.assign fd ctx = some { m with datas := m.datas.set fd.toNat ctx } := by
  obtain ⟨c, hc⟩ := slot_eq_some_iff.mpr ⟨h0, hlt⟩
  rw [assign, hc, Option.map_some]

/-- `create` makes a new context, and touches the entry of no other descriptor. -/
theorem create_eq (hm : m.Sized) (h0 : 0 ≤ fd)
    (hgrow : (m.datas.length : ℤ) ≤ fd → 3 * fd / 2 < 2 ^ 31) :
    ∃ m', m.create fd = some (m', m.made) ∧ m'.Sized ∧ m'.made = m.made + 1 ∧
      ∀ fd', m'.entry fd' = if fd' = fd then some m.made else m.entry fd' := by
  have hinitial := hm.initial
  -- the vector the context is stored in
  obtain ⟨r, hresized, hlt, hsized, hentry⟩ : ∃ r : FdManager,
      (if toInt m.datas.length ≤ fd then
        if 0 ≤ fd then some (m.resize (3 * fd / 2).toNat) else none
      else some m) = some r ∧ fd < r.datas.length ∧ r.Sized ∧
        ∀ fd', r.entry fd' = m.entry fd' := by
    rw [toInt_of_lt hm.int]
    split_ifs with hle
    -- the vector grows to one and a half times the descriptor, which is beyond it
    · have hfd := hgrow hle
      have hn : m.datas.length ≤ (3 * fd / 2).toNat := by omega
      refine ⟨_, rfl, ?_, ⟨?_, ?_⟩, entry_resize hn⟩
      · rw [length_resize hn]
        omega
      · rw [length_resize hn]
        omega
      · rw [length_resize hn]
        omega
    · exact ⟨m, rfl, by omega, hm, fun _ => rfl⟩
  have hn : fd.toNat < r.datas.length := by omega
  refine ⟨{ r with datas := r.datas.set fd.toNat (some m.made), made := m.made + 1 }, ?_, ?_, rfl,
    fun fd' => ?_⟩
  · rw [create]
    simp only [hresized, Option.bind_some, assign_eq h0 hlt, Option.map_some]
  · exact ⟨by rw [List.length_set]; exact hsized.initial, by rw [List.length_set]; exact hsized.int⟩
  · rcases lt_or_ge fd' 0 with hneg | h0'
    · rw [if_neg (by omega), entry_of_neg hneg, entry_of_neg hneg]
    · rw [← hentry]
      have hset := entry_set (some m.made) hn h0'
      rw [Int.toNat_of_nonneg h0] at hset
      exact hset

/-- `del` empties the entry, and touches the entry of no other descriptor. -/
theorem del_eq (hm : m.Sized) (h0 : 0 ≤ fd) (hsize : fd ≠ m.datas.length) :
    ∃ m', m.del fd = some m' ∧ m'.datas.length = m.datas.length ∧ m'.made = m.made ∧
      ∀ fd', m'.entry fd' = if fd' = fd then none else m.entry fd' := by
  unfold del
  rw [toInt_of_lt hm.int]
  split_ifs with hlt
  · refine ⟨m, rfl, rfl, rfl, fun fd' => ?_⟩
    split_ifs with h
    · rw [h, entry_of_le hlt.le]
    · rfl
  · have hlt' : fd < m.datas.length := by omega
    refine ⟨_, assign_eq h0 hlt', List.length_set .., rfl, fun fd' => ?_⟩
    rcases lt_or_ge fd' 0 with hneg | h0'
    · rw [if_neg (by omega), entry_of_neg hneg, entry_of_neg hneg]
    · have hset := entry_set none (show fd.toNat < m.datas.length by omega) h0'
      rw [Int.toNat_of_nonneg h0] at hset
      exact hset

end FdManager

end Muhui.Descriptors
