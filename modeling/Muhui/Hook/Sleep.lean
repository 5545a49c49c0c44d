/-
  The hooked `sleep`, `usleep` and `nanosleep` (`hook.cc`).

  Each arms a timer that schedules the sleeping fiber again.  The period is computed in the type of
  the argument before it becomes a `uint64_t`: an `unsigned int` in `sleep`, a `useconds_t` in
  `usleep`, and a `long` that is stored in an `int` in `nanosleep`.
-/
import Muhui.Encoding.Signed
import Muhui.Timer.Operations

namespace Muhui.Hook

/-- A call of one of the three functions, with its arguments. -/
inductive SleepCall
  /-- `sleep(unsigned int seconds)` -/
  | sleep (seconds : ℕ)
  /-- `usleep(useconds_t usec)` -/
  | usleep (usec : ℕ)
  /-- `nanosleep(req, rem)` with the fields of `req`. -/
  | nanosleep (tv_sec tv_nsec : ℤ)
  deriving DecidableEq

namespace SleepCall

/-- The first argument of `addTimer`. -/
def timeout : SleepCall → ℕ
  | sleep seconds => unsigned 32 (seconds * 1000)
  | usleep usec => usec / 1000
  | nanosleep tv_sec tv_nsec =>
    let timeout_ms :=
      signed 32 (signed 64 (signed 64 (tv_sec * 1000) + (tv_nsec.tdiv 1000).tdiv 1000))
    unsigned 64 timeout_ms

variable {P κ : Type*} [LinearOrder P]

/-- The hooked function up to `YieldToHold`: arms the timer at the fresh address `p` for `fiber`.
With the hook off it is the original function that runs (`none`). -/
def run (hook_enable : Bool) (c : SleepCall) (m : TimerManager P κ) (p : P) (fiber : κ)
    (now : ℕ) : Option (Bool × TimerManager P κ) :=
  if hook_enable then some (m.addTimer p c.timeout (some fiber) false now) else none

/-- The requested time in whole milliseconds. -/
def requested : SleepCall → ℤ
  | sleep seconds => seconds * 1000
  | usleep usec => usec / 1000
  | nanosleep tv_sec tv_nsec => (tv_sec * 10 ^ 9 + tv_nsec) / 10 ^ 6

/-- The arguments have their types, and those of `nanosleep` are a time of at most
`2 ^ 63 - 1` ms. -/
def Admitted : SleepCall → Prop
  | sleep seconds => seconds < 2 ^ 32
  | usleep usec => usec < 2 ^ 32
  | nanosleep tv_sec tv_nsec =>
    0 ≤ tv_sec ∧ 0 ≤ tv_nsec ∧ tv_nsec < 10 ^ 9 ∧ (tv_sec * 10 ^ 9 + tv_nsec) / 10 ^ 6 < 2 ^ 63

/-- The millisecond count fits the type that it is computed in. -/
def Fits : SleepCall → Prop
  | sleep seconds => seconds * 1000 < 2 ^ 32
  | usleep _ => True
  | nanosleep tv_sec tv_nsec => tv_sec * 1000 + tv_nsec / 10 ^ 6 < 2 ^ 31

instance : (c : SleepCall) → Decidable c.Admitted
  | sleep _ | usleep _ => inferInstanceAs (Decidable (_ < _))
  | nanosleep _ _ => inferInstanceAs (Decidable (_ ∧ _))

variable {m : TimerManager P κ} {p : P}

/-- The period of the timer that a hooked call arms is the first argument of `addTimer`. -/
theorem ms_of_run {c : SleepCall} {fiber : κ} {now : ℕ} {r : Bool × TimerManager P κ}
    (hrun : c.run true m p fiber now = some r) : (r.2.mem p).ms = c.timeout := by
  obtain rfl := Option.some.inj hrun
  rw [TimerManager.addTimer_mem, Function.update_self]

theorem timeout_nanosleep {tv_sec tv_nsec : ℤ} (h : (nanosleep tv_sec tv_nsec).Admitted) :
    ((nanosleep tv_sec tv_nsec).timeout : ℤ) =
        unsigned 64 (signed 32 (tv_sec * 1000 + tv_nsec / 10 ^ 6)) ∧
      (nanosleep tv_sec tv_nsec).requested = tv_sec * 1000 + tv_nsec / 10 ^ 6 := by
  obtain ⟨hsec, hnsec, hlt, hfits⟩ := h
  have hdiv : (tv_nsec.tdiv 1000).tdiv 1000 = tv_nsec / 10 ^ 6 := by
    rw [Int.tdiv_eq_ediv_of_nonneg hnsec, Int.tdiv_eq_ediv_of_nonneg (by omega)]
    norm_num
    omega
  -- nothing is lost as long as the count is a `long`
  have hproduct : signed 64 (tv_sec * 1000) = tv_sec * 1000 := by
    apply (signed_eq_iff (by decide)).mpr
    norm_num at hfits ⊢
    omega
  have hsum : signed 64 (tv_sec * 1000 + tv_nsec / 10 ^ 6) = tv_sec * 1000 + tv_nsec / 10 ^ 6 := by
    apply (signed_eq_iff (by decide)).mpr
    norm_num at hfits ⊢
    omega
  constructor
  · simp only [timeout, hdiv, hproduct, hsum]
  · unfold requested
    norm_num
    omega

/-- **When a hooked sleep registers the requested duration**: exactly when the millisecond count
fits the type it is computed in. -/
theorem ms_eq_requested_iff {c : SleepCall} (hc : c.Admitted) {fiber : κ} {now : ℕ}
    {r : Bool × TimerManager P κ} (hrun : c.run true m p fiber now = some r) :
    ((r.2.mem p).ms : ℤ) = c.requested ↔ c.Fits := by
  rw [ms_of_run hrun]
  cases c with
  | sleep seconds =>
    unfold timeout requested Fits
    rw [unsigned_eq_iff]
    norm_num
    omega
  | usleep usec =>
    unfold timeout requested Fits
    norm_num
  | nanosleep tv_sec tv_nsec =>
    obtain ⟨htimeout, hrequested⟩ := timeout_nanosleep hc
    obtain ⟨hsec, hnsec, -, hlong⟩ := hc
    rw [htimeout, hrequested]
    unfold Fits
    generalize hcount : tv_sec * 1000 + tv_nsec / 10 ^ 6 = count
    have hrange : 0 ≤ count ∧ count < 2 ^ 63 := by
      norm_num at hcount hlong ⊢
      omega
    have hbounds := @signed_bounds 32 count (by decide)
    have hmod := @signed_emod 32 count
    have hword := @natCast_unsigned 64 (signed 32 count)
    norm_num at hrange hbounds hmod hword ⊢
    omega

/-- A sleep of a day. -/
theorem ms_eq_requested_day :
    ∃ r, (nanosleep 86400 500000).run true (TimerManager.new (fun _ : ℕ => ⟨false, 0, 0, none⟩) 0)
        1 7 1000 = some r ∧
      (((r.2.mem 1).ms : ℤ) = (nanosleep 86400 500000).requested ↔
        (nanosleep 86400 500000).Fits) :=
  ⟨_, rfl, ms_eq_requested_iff (by decide) rfl⟩

/-- `sleep` of 50 days asks for half an hour, and `nanosleep` of 25 days for a time that is never
over. -/
theorem ms_ne_requested_of_overflow :
    ∃ r r', (sleep 4320000).run true (TimerManager.new (fun _ : ℕ => ⟨false, 0, 0, none⟩) 0)
        1 7 1000 = some r ∧ (r.2.mem 1).ms = 25032704 ∧
      ((r.2.mem 1).ms : ℤ) ≠ (sleep 4320000).requested ∧
      (nanosleep 2160000 0).run true (TimerManager.new (fun _ : ℕ => ⟨false, 0, 0, none⟩) 0)
        1 7 1000 = some r' ∧ ((r'.2.mem 1).ms : ℤ) ≠ (nanosleep 2160000 0).requested :=
  ⟨_, _, rfl, by decide, by decide, rfl, by decide⟩

end SleepCall

end Muhui.Hook
