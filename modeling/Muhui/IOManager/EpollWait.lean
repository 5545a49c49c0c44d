/-
  How long `IOManager::idle` sleeps.

  What `getNextTimer` returns, `~0ull` without timers, is clamped to `MAX_TIMEOUT` and handed to
  `epoll_wait` as an `int`.  The clamp compares the low 32 bits as an `int` and keeps the 64 bits;
  the loop clamps the kept value again when `epoll_wait` was interrupted.
-/
import Muhui.Encoding.Signed
import Muhui.Timer.Basic

namespace Muhui.IOManager

/-- `MAX_TIMEOUT` of `idle`, in milliseconds. -/
def MAX_TIMEOUT : ℕ := 3000

/-- What becomes of `next_timeout` in a turn of the loop around `epoll_wait`. -/
def clampTimeout (next_timeout : ℕ) : ℕ :=
  if next_timeout ≠ 2 ^ 64 - 1 then
    if signed 32 next_timeout > MAX_TIMEOUT then MAX_TIMEOUT else next_timeout
  else MAX_TIMEOUT

/-- The timeouts of the calls of `epoll_wait`, of which the first `retries` fail with `EINTR`. -/
def epollTimeouts : ℕ → ℕ → List ℤ
  | 0, next_timeout => [signed 32 (clampTimeout next_timeout)]
  | retries + 1, next_timeout =>
    signed 32 (clampTimeout next_timeout) :: epollTimeouts retries (clampTimeout next_timeout)

/-- A timeout that wakes the thread up in time for the value `next_timeout`, and does not keep it
busy before. -/
def InTime (next_timeout : ℕ) (timeout : ℤ) : Prop :=
  0 ≤ timeout ∧ timeout ≤ MAX_TIMEOUT ∧ timeout ≤ next_timeout ∧
    (timeout = 0 → next_timeout = 0)

instance (next_timeout : ℕ) (timeout : ℤ) : Decidable (InTime next_timeout timeout) :=
  inferInstanceAs (Decidable (_ ∧ _))

/-- The values that survive the truncations: none, the sentinel, and what is positive as an
`int`. -/
def FitsTimeout (next_timeout : ℕ) : Prop :=
  next_timeout = 0 ∨ next_timeout = 2 ^ 64 - 1 ∨ 0 < signed 32 next_timeout

variable {v : ℕ}

/-- A number that is positive as an `int` is at least that `int`. -/
theorem signed_32_le (hv : 0 < signed 32 v) : signed 32 v ≤ v := by
  have hmod := @signed_emod 32 v
  have hbounds := @signed_bounds 32 v (by decide)
  norm_num at hmod hbounds
  omega

/-- Clamping once is enough. -/
theorem clampTimeout_clampTimeout : clampTimeout (clampTimeout v) = clampTimeout v := by
  have hmax : clampTimeout MAX_TIMEOUT = MAX_TIMEOUT := by decide
  conv_lhs => arg 1; unfold clampTimeout
  split_ifs with hnone hbig
  · rw [hmax, clampTimeout, if_pos hnone, if_pos hbig]
  · rfl
  · rw [hmax, clampTimeout, if_neg hnone]

/-- Every retry waits as long as the first call. -/
theorem mem_epollTimeouts {retries : ℕ} {t : ℤ} :
    t ∈ epollTimeouts retries v ↔ t = signed 32 (clampTimeout v) := by
  induction retries generalizing v with
  | zero => rw [epollTimeouts, List.mem_singleton]
  | succ retries ih => rw [epollTimeouts, List.mem_cons, ih, clampTimeout_clampTimeout, or_self]

/-- **One turn of the loop.** -/
theorem inTime_clampTimeout : InTime v (signed 32 (clampTimeout v)) ↔ FitsTimeout v := by
  have hmax : signed 32 MAX_TIMEOUT = 3000 := by decide
  have hzero : signed 32 (0 : ℕ) = 0 := by decide
  unfold InTime FitsTimeout clampTimeout
  split_ifs with hnone hbig
  · -- cut off at `MAX_TIMEOUT`, which is at most the low 32 bits
    have hle := signed_32_le (v := v) (by omega)
    rw [hmax]
    unfold MAX_TIMEOUT at hbig ⊢
    omega
  · -- kept, as the low 32 bits
    unfold MAX_TIMEOUT at hbig ⊢
    constructor
    · rintro ⟨hnonneg, -, -, hbusy⟩
      by_cases hv : signed 32 v = 0
      · exact Or.inl (hbusy hv)
      · exact Or.inr (Or.inr (by omega))
    · rintro (rfl | hv | hv)
      · rw [hzero]
        omega
      · exact absurd hv hnone
      · have hle := signed_32_le hv
        omega
  · rw [hmax]
    unfold MAX_TIMEOUT
    omega

variable {P κ : Type*}

/-- **When the event loop does not oversleep**: the value of `getNextTimer` is `0`, or there are no
timers, or the value is positive as an `int`. -/
theorem inTime_epollTimeouts_iff (m : TimerManager P κ) (now retries : ℕ) :
    (∀ t ∈ epollTimeouts retries (m.getNextTimer now).1, InTime (m.getNextTimer now).1 t) ↔
      FitsTimeout (m.getNextTimer now).1 := by
  rw [← inTime_clampTimeout]
  constructor
  · exact fun h => h _ (mem_epollTimeouts.mpr rfl)
  · intro h t ht
    rwa [mem_epollTimeouts.mp ht]

/-- A timer that is due in `2 ^ 31` ms makes the thread sleep without a limit, one that is due in
`2 ^ 32` ms does not let it sleep at all. -/
theorem not_inTime_epollTimeouts_of_far_timer :
    ∃ m m' : TimerManager ℕ ℕ,
      (m.getNextTimer 0).1 = 2 ^ 31 ∧ epollTimeouts 0 (m.getNextTimer 0).1 = [-2 ^ 31] ∧
        ¬(∀ t ∈ epollTimeouts 0 (m.getNextTimer 0).1, InTime (m.getNextTimer 0).1 t) ∧
      (m'.getNextTimer 0).1 = 2 ^ 32 ∧ epollTimeouts 0 (m'.getNextTimer 0).1 = [0] ∧
        ¬(∀ t ∈ epollTimeouts 0 (m'.getNextTimer 0).1, InTime (m'.getNextTimer 0).1 t) := by
  refine ⟨((TimerManager.new (fun _ => ⟨false, 0, 0, none⟩) 0).addTimer 1 (2 ^ 31) (some 7)
    false 0).2, ((TimerManager.new (fun _ => ⟨false, 0, 0, none⟩) 0).addTimer 1 (2 ^ 32) (some 7)
    false 0).2, ?_⟩
  decide

end Muhui.IOManager
