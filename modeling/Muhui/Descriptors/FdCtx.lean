/-
  `FdCtx` (`fd_manager.cc`): what is known of a descriptor.

  The hooked functions ask whether it is a socket that is open and that the user has not made
  nonblocking, and keep the two timeouts of the socket apart (`getTimeout_setTimeout_other`).
-/
import Mathlib.Algebra.Ring.Nat
import Mathlib.Data.Int.Notation

namespace Muhui.Descriptors

def SO_RCVTIMEO : ℤ := 20
def SO_SNDTIMEO : ℤ := 21

/-- The timeouts are two `uint64_t`. -/
structure FdCtx where
  m_isInit : Bool
  m_isSocket : Bool
  m_sysNonblock : Bool
  m_userNonblock : Bool
  m_isClosed : Bool
  m_recvTimeout : ℕ
  m_sendTimeout : ℕ
  deriving DecidableEq

namespace FdCtx

/-- `FdCtx::FdCtx(fd)`; `stat` is what `fstat` answers: whether the descriptor is a socket, or an
error. -/
def init (stat : Option Bool) : FdCtx where
  m_isInit := stat.isSome
  m_isSocket := stat.getD false
  m_sysNonblock := stat.getD false
  m_userNonblock := false
  m_isClosed := false
  m_recvTimeout := 2 ^ 64 - 1
  m_sendTimeout := 2 ^ 64 - 1

/-- `FdCtx::setTimeout(type, v)` -/
def setTimeout (type : ℤ) (v : ℕ) (ctx : FdCtx) : FdCtx :=
  if type = SO_RCVTIMEO then { ctx with m_recvTimeout := v } else { ctx with m_sendTimeout := v }

/-- `FdCtx::getTimeout(type)` -/
def getTimeout (type : ℤ) (ctx : FdCtx) : ℕ :=
  if type = SO_RCVTIMEO then ctx.m_recvTimeout else ctx.m_sendTimeout

variable {type type' : ℤ}

@[simp]
theorem getTimeout_setTimeout (type : ℤ) (v : ℕ) (ctx : FdCtx) :
    (ctx.setTimeout type v).getTimeout type = v := by
  unfold setTimeout getTimeout
  split_ifs
  · rfl
  · rfl

/-- The two directions are apart. -/
theorem getTimeout_setTimeout_other (h : type = SO_RCVTIMEO ↔ type' ≠ SO_RCVTIMEO) (v : ℕ)
    (ctx : FdCtx) : (ctx.setTimeout type v).getTimeout type' = ctx.getTimeout type' := by
  unfold setTimeout getTimeout
  by_cases htype : type = SO_RCVTIMEO
  · rw [if_pos htype, if_neg (h.mp htype), if_neg (h.mp htype)]
  · rw [if_neg htype, if_pos (not_not.mp fun hne => htype (h.mpr hne)),
      if_pos (not_not.mp fun hne => htype (h.mpr hne))]

end FdCtx

end Muhui.Descriptors
