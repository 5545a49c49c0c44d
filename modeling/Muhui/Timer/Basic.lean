/-
  The timers of `timer.cc`.

  `TimerManager P κ` is the state of a `TimerManager` together with the memory of its `Timer`
  objects: `P` is the type of the addresses of `Timer` objects (`Timer::ptr::get()`), ordered as
  the comparator orders raw pointers, and `κ` is the type of callbacks.  `m_timer` is a
  `std::set` ordered by `Timer::Comparator`, which reads the deadlines through the pointers, so
  the comparator takes the memory as an argument.

  Times are milliseconds in a `uint64_t`: sums and differences are taken modulo `2 ^ 64`.  Clock
  readings (`GetCurrentMS()`) are arguments of the operations.

  Dereferencing or erasing an end iterator is undefined behaviour; the operations that could do it
  return an `Except`, and the theorems say whether they can.
-/
import Mathlib.Algebra.Ring.Nat
import Mathlib.Data.Nat.Basic
import Mathlib.Order.Lattice
import Mathlib.Logic.Function.Basic
import Muhui.Container.OrderedSet

namespace Muhui

/-- Sum of two `uint64_t` values. -/
def addU64 (a b : ℕ) : ℕ := (a + b) % 2 ^ 64

/-- Difference of two `uint64_t` values. -/
def subU64 (a b : ℕ) : ℕ := (a + (2 ^ 64 - b % 2 ^ 64)) % 2 ^ 64

/-- A `Timer` object. -/
structure Timer (κ : Type*) where
  /-- `m_recurring`: is the timer re-armed every time it expires. -/
  recurring : Bool
  /-- `m_ms`: the period. -/
  ms : ℕ
  /-- `m_next`: the deadline. -/
  next : ℕ
  /-- `m_cb`: the callback, `none` for an empty `std::function`. -/
  cb : Option κ
  deriving DecidableEq

/-- What an operation on an end iterator would do. -/
inductive IteratorFault
  /-- `m_timer.erase(m_timer.end())` -/
  | eraseEnd
  /-- `*m_timer.begin()` on an empty set -/
  | derefEnd
  deriving DecidableEq

/-- A `TimerManager` and the memory of the timers. -/
structure TimerManager (P κ : Type*) where
  /-- The `Timer` objects by address. -/
  mem : P → Timer κ
  /-- `m_timer`, in the order of the comparator. -/
  timer : List P
  /-- `m_tickled`: has `onTimerInsertedAtFront` been called since the last `getNextTimer`. -/
  tickled : Bool
  /-- `m_previousTime`: the clock reading of the last `detectClockRollover`. -/
  previousTime : ℕ

namespace Timer

variable {P κ : Type*} [LinearOrder P]

/-- `Timer::Comparator`: null pointers first, then by deadline, then by address. -/
def comparator (mem : P → Timer κ) : Option P → Option P → Bool
  | none, none => false
  | none, some _ => true
  | some _, none => false
  | some lhs, some rhs =>
    if (mem lhs).next < (mem rhs).next then true
    else if (mem rhs).next < (mem lhs).next then false
    else decide (lhs < rhs)

/-- The comparator on the non-null pointers `m_timer` holds. -/
def less (mem : P → Timer κ) (lhs rhs : P) : Bool := comparator mem (some lhs) (some rhs)

end Timer

namespace TimerManager

variable {P κ : Type*} [LinearOrder P] (m : TimerManager P κ) (p : P)

/-- `TimerManager::TimerManager`: no timers yet. -/
def new (mem : P → Timer κ) (now : ℕ) : TimerManager P κ :=
  { mem := mem, timer := [], tickled := false, previousTime := now }

/-- A write to the object at `p`. -/
def store (t : Timer κ) : TimerManager P κ := { m with mem := Function.update m.mem p t }

/-- `m_timer.find(p)` -/
def find : Option ℕ := OrderedSet.find (Timer.less m.mem) p m.timer

/-- `m_timer.insert(p)` -/
def insert : TimerManager P κ :=
  { m with timer := OrderedSet.insert (Timer.less m.mem) p m.timer }

/-- `m_timer.erase(it)` -/
def eraseAt (it : ℕ) : TimerManager P κ := { m with timer := m.timer.eraseIdx it }

/-- `TimerManager::addTimer(val, lock)`: the section that holds the write lock.  The flag tells
the caller to call `onTimerInsertedAtFront` after unlocking. -/
def addTimerLocked : Bool × TimerManager P κ :=
  let m' := m.insert p
  let at_front := decide (m'.timer.head? = some p) && !m'.tickled
  (at_front, if at_front then { m' with tickled := true } else m')

/-- `TimerManager::addTimer(ms, cb, recurring)`: constructs the object at the fresh address `p`
at clock reading `now` and inserts it. -/
def addTimer (ms : ℕ) (cb : Option κ) (recurring : Bool) (now : ℕ) : Bool × TimerManager P κ :=
  (m.store p { recurring := recurring, ms := ms, next := addU64 now ms, cb := cb }).addTimerLocked
    p

/-- `Timer::cancel` -/
def cancel : Except IteratorFault (Bool × TimerManager P κ) :=
  if (m.mem p).cb.isSome then
    let m' := m.store p { m.mem p with cb := none }
    match m'.find p with
    | none => .error .eraseEnd
    | some it => .ok (true, m'.eraseAt it)
  else .ok (false, m)

/-- `Timer::refresh` -/
def refresh (now : ℕ) : Bool × TimerManager P κ :=
  if (m.mem p).cb.isSome then
    match m.find p with
    | none => (false, m)
    | some it =>
      let m' := m.eraseAt it
      (true, (m'.store p { m'.mem p with next := addU64 now (m'.mem p).ms }).insert p)
  else (false, m)

/-- `Timer::reset`.  The test of the period is made before the lock is taken, so `seen` is what
that unlocked read of `m_ms` returned.  The first component is the return value, the second the
flag of `addTimerLocked`. -/
def reset (ms : ℕ) (from_now : Bool) (now seen : ℕ) : Bool × Bool × TimerManager P κ :=
  if ms = seen ∧ from_now = false then (false, false, m)
  else if (m.mem p).cb.isSome then
    match m.find p with
    | none => (false, false, m)
    | some it =>
      let m' := m.eraseAt it
      let start := if from_now then now else subU64 (m'.mem p).next (m'.mem p).ms
      let m' := m'.store p { m'.mem p with ms := ms, next := addU64 start ms }
      (true, m'.addTimerLocked p)
  else (false, false, m)

/-- `TimerManager::getNextTimer` -/
def getNextTimer (now : ℕ) : ℕ × TimerManager P κ :=
  let m' := { m with tickled := false }
  match m'.timer with
  | [] => (2 ^ 64 - 1, m')
  | next :: _ => (if now ≥ (m'.mem next).next then 0 else subU64 (m'.mem next).next now, m')

/-- `TimerManager::detectClockRollover` -/
def detectClockRollover (now : ℕ) : Bool × TimerManager P κ :=
  (decide (now < m.previousTime) && decide (now < subU64 m.previousTime (60 * 60 * 1000)),
    { m with previousTime := now })

/-- `while(it != end && (*it)->m_next == now_ms) ++it` -/
def skipEqual (mem : P → Timer κ) (now : ℕ) : List P → ℕ
  | [] => 0
  | q :: qs => if (mem q).next = now then skipEqual mem now qs + 1 else 0

/-- The iterator up to which `listExpiredCb` empties the set; `probe` is the address of the
temporary `now_timer`. -/
def expiredEnd (rollover : Bool) (now : ℕ) (probe : P) : ℕ :=
  if rollover then m.timer.length
  else
    let mem := Function.update m.mem probe
      { recurring := false, ms := 0, next := now, cb := none }
    let it := OrderedSet.lowerBound (Timer.less mem) probe m.timer
    it + skipEqual m.mem now (m.timer.drop it)

/-- The loop of `listExpiredCb` over the timers it took out.  Each callback comes with the timer
it belongs to. -/
def expireLoop (now : ℕ) : List P → TimerManager P κ → List (P × Option κ) × TimerManager P κ
  | [], m => ([], m)
  | q :: qs, m =>
    let t := m.mem q
    let m' :=
      if t.recurring then (m.store q { t with next := addU64 now t.ms }).insert q
      else m.store q { t with cb := none }
    let r := expireLoop now qs m'
    ((q, t.cb) :: r.1, r.2)

/-- The section of `TimerManager::listExpiredCb` under the write lock, after the rollover test. -/
def takeExpired (rollover : Bool) (now : ℕ) (probe : P) :
    Except IteratorFault (List (P × Option κ) × TimerManager P κ) :=
  let it := m.expiredEnd rollover now probe
  let r := expireLoop now (m.timer.take it) { m with timer := m.timer.drop it }
  -- `!rollover && (*m_timer.begin())->m_next > now_ms`
  match rollover, m.timer with
  | true, _ => .ok r
  | false, [] => .error .derefEnd
  | false, first :: _ => if (m.mem first).next > now then .ok ([], m) else .ok r

/-- The section of `TimerManager::listExpiredCb` under the write lock.  `now` was read before the
emptiness test, which is a section of its own (`m.timer.isEmpty` under the read lock). -/
def listExpiredCb (now : ℕ) (probe : P) :
    Except IteratorFault (List (P × Option κ) × TimerManager P κ) :=
  (m.detectClockRollover now).2.takeExpired (m.detectClockRollover now).1 now probe

end TimerManager

end Muhui
