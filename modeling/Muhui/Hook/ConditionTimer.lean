/-
  The timer of a hooked call (`hook.cc`).

  `do_io` and `connect_with_timeout` arm it with `addConditionTimer`, on the condition that their
  `timer_info` still lives.  The callback tests `cancelled`, sets it and calls `cancelEvent`, and
  all the others may take their steps between these.
-/
import Muhui.Timer.Delivery

namespace Muhui.ConditionTimer

/-- The callback of a timer: `OnTimer` with the lambda of a hooked call, which holds what `κ` says,
or somebody else's. -/
inductive Callback (κ : Type*)
  | condition (call : κ)
  | other (id : ℕ)
  deriving DecidableEq

/-- Where the callback of such a timer is; `ρ` are the places inside `cancelEvent`. -/
inductive CallbackPc (ρ : Type*)
  /-- Not handed out by `listExpiredCb`. -/
  | armed
  /-- Handed to the scheduler. -/
  | queued
  /-- Past the test of `tinfo`; before it sets `cancelled`. -/
  | passed
  /-- Before `cancelEvent`. -/
  | cancelling
  | removing (place : ρ)
  | finished
  deriving DecidableEq

variable {P κ ρ : Type*}

def Callback.isCondition : Callback κ → Bool
  | condition _ => true
  | other _ => false

/-- A callback that is going to call `cancelEvent`, whatever else happens. -/
def CallbackPc.cancels : CallbackPc ρ → Bool
  | passed | cancelling | removing _ => true
  | _ => false

/-- A callback that has set `cancelled` or has seen that there is nothing to do. -/
def CallbackPc.past : CallbackPc ρ → Bool
  | cancelling | removing _ | finished => true
  | _ => false

/-- What others do with timers: those of the hooked calls are known to nobody else. -/
def ForeignTimer (added : P → Option (Callback κ)) : TimerManager.Step P (Callback κ) → Bool
  | .addTimer _ _ cb _ _ => !cb.isCondition
  | .cancel p | .refresh p _ | .reset p _ _ _ _ => !(added p).any Callback.isCondition
  | .getNextTimer _ | .listTest _ | .listTake _ _ => true

section HandOut

variable [DecidableEq P] {log : List (P × TimerEvent (Callback κ))} {callback : P → CallbackPc ρ}
  {p : P}

/-- The callbacks after `listExpiredCb` may have handed some out: `log` is what it has logged. -/
def handOut (log : List (P × TimerEvent (Callback κ))) (callback : P → CallbackPc ρ) :
    P → CallbackPc ρ := fun p =>
  if log.any fun e =>
      match e with
      | (q, .handed (some (.condition _))) => q = p
      | _ => false
  then .queued else callback p

theorem handOut_of_mem {call : κ} (h : (p, .handed (some (.condition call))) ∈ log) :
    handOut log callback p = .queued :=
  if_pos (List.any_eq_true.mpr ⟨_, h, decide_eq_true rfl⟩)

theorem handOut_of_notMem (h : ∀ call, (p, .handed (some (.condition call))) ∉ log) :
    handOut log callback p = callback p := by
  refine if_neg fun hany => ?_
  obtain ⟨⟨q, e⟩, hmem, he⟩ := List.any_eq_true.mp hany
  match e, he with
  | .handed (some (.condition call)), he =>
    obtain rfl : q = p := of_decide_eq_true he
    exact h call hmem

end HandOut

end Muhui.ConditionTimer
