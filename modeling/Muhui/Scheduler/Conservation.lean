/-
  No task is lost and none is run twice.

  `Ledger` runs a scheduler and gives every task that is pushed to `m_fibers` a number of its own.
  Its log says when the task was pushed, which worker removed it from the queue, and whether that
  worker handed it to `swapIn` or dropped it because its fiber was over.  `TaskState` is what can
  have become of a task: its history is pushed, removed, handed over (or dropped), in this order
  and each once, and a task for one thread is removed by that thread only.

  The invariant ties the numbers to the code: `m_fibers` holds the tasks that have not been removed,
  in order, and a worker between the scan and `swapIn` carries exactly the task it has removed
  (`Carry`).  `m_activeThreadCount` is handled on its own: it counts the workers that are between
  the removal of a task and the decrement (`Counted`).
-/
import Mathlib.Data.Finset.Card
import Mathlib.Data.List.Nodup
import Mathlib.Tactic.Common
import Muhui.Container.KeyedLog
import Muhui.Scheduler.Next

namespace Muhui.Scheduler

variable {s s' : Scheduler} {w : ℕ}

/-! ### `m_activeThreadCount` -/

/-- The worker has removed a task and has not yet decremented `m_activeThreadCount`. -/
def Pc.active : Pc → Bool
  | taken _ | dropping | takenCb _ | entering _ _ | running _ _ | swappingOut _ _ | returned _ _ =>
    true
  | scanning | counted _ _ | holding _ _ => false

/-- `m_activeThreadCount` is the number of active workers. -/
def Counted (s : Scheduler) : Prop :=
  ∃ S : Finset ℕ, (∀ w, w ∈ S ↔ (s.pc w).active = true) ∧ s.activeThreadCount = S.card

theorem Counted.same (h : s.Counted) (pc : Pc) (hpc : s'.pc = Function.update s.pc w pc)
    (hactive : pc.active = (s.pc w).active) (hcount : s'.activeThreadCount = s.activeThreadCount) :
    s'.Counted := by
  obtain ⟨S, hS, hcard⟩ := h
  refine ⟨S, fun w' => ?_, by rw [hcount, hcard]⟩
  rw [hS, hpc]
  by_cases hw : w' = w
  · rw [hw, Function.update_self, hactive]
  · rw [Function.update_of_ne hw]

theorem Counted.stay (h : s.Counted) (hpc : s'.pc = s.pc)
    (hcount : s'.activeThreadCount = s.activeThreadCount) : s'.Counted := by
  obtain ⟨S, hS, hcard⟩ := h
  exact ⟨S, by rw [hpc]; exact hS, by rw [hcount, hcard]⟩

theorem Counted.enter (h : s.Counted) (pc : Pc) (hpc : s'.pc = Function.update s.pc w pc)
    (hold : (s.pc w).active = false) (hnew : pc.active = true)
    (hcount : s'.activeThreadCount = s.activeThreadCount + 1) : s'.Counted := by
  obtain ⟨S, hS, hcard⟩ := h
  have hw : w ∉ S := by rw [hS, hold]; decide
  refine ⟨insert w S, fun w' => ?_, ?_⟩
  · rw [Finset.mem_insert, hS, hpc]
    by_cases hww : w' = w
    · rw [hww, Function.update_self, hnew]
      simp
    · rw [Function.update_of_ne hww]
      simp [hww]
  · rw [Finset.card_insert_of_notMem hw, hcount, hcard]
    push_cast
    rfl

theorem Counted.leave (h : s.Counted) (pc : Pc) (hpc : s'.pc = Function.update s.pc w pc)
    (hold : (s.pc w).active = true) (hnew : pc.active = false)
    (hcount : s'.activeThreadCount = s.activeThreadCount - 1) : s'.Counted := by
  obtain ⟨S, hS, hcard⟩ := h
  have hw : w ∈ S := (hS w).mpr hold
  refine ⟨S.erase w, fun w' => ?_, ?_⟩
  · rw [Finset.mem_erase, hS, hpc]
    by_cases hww : w' = w
    · rw [hww, Function.update_self, hnew]
      simp
    · rw [Function.update_of_ne hww]
      simp [hww]
  · have hpos : 0 < S.card := Finset.card_pos.mpr ⟨w, hw⟩
    rw [Finset.card_erase_of_mem hw, hcount, hcard]
    omega

theorem counted_init : init.Counted := ⟨∅, fun w => by simp [init, Pc.active], rfl⟩

/-- **Step lemma** for the count. -/
theorem Counted.next {a : Step} (h : s.Counted) (hnext : s.next a = some s') : s'.Counted := by
  obtain ⟨-, hnext⟩ := Next.of_next hnext
  cases hnext with
  | scheduled | built | registered | triggered | resetFailed | swapInFailed | yieldFailed =>
    exact h.stay rfl rfl
  | nothing => exact h
  | @took w t ts hpc htake =>
    refine h.enter _ rfl (by rw [hpc]; rfl) ?_ rfl
    cases t.job <;> rfl
  | spent hpc | alive hpc | reused hpc | constructed hpc | entered hpc | yielded hpc
  | swappedOut hpc | ready hpc | waits hpc | put hpc =>
    exact h.same _ rfl (by rw [hpc]; rfl) rfl
  | dropped hpc | counted hpc => exact h.leave _ rfl (by rw [hpc]; rfl) rfl rfl
  | @ended w f isCb hpc hstate =>
    cases isCb
    all_goals exact h.same _ rfl (by rw [hpc]; rfl) rfl

/-! ### The scan of the queue -/

/-- The position at which the scan stops. -/
def scanIdx (s : Scheduler) (w : ℕ) : ℕ := s.fibers.findIdx fun t => !skips s.state w t

/-- **The scan takes the first task the worker may take**, and leaves the others in order. -/
theorem take_eq_some {state : ℕ → FiberState} {t : FiberAndThread} {q ts : List FiberAndThread}
    (htake : take state w q = some (t, ts)) :
    q[q.findIdx fun t => !skips state w t]? = some t ∧
      ts = q.eraseIdx (q.findIdx fun t => !skips state w t) ∧ skips state w t = false := by
  induction q generalizing ts with
  | nil => cases htake
  | cons u q ih =>
    rw [take] at htake
    rw [List.findIdx_cons]
    split_ifs at htake with hskip
    · obtain ⟨⟨t', ts'⟩, hrest, heq⟩ := Option.map_eq_some_iff.mp htake
      obtain ⟨rfl, rfl⟩ := Prod.mk.inj heq
      obtain ⟨hget, herase, hmay⟩ := ih hrest
      rw [hskip]
      exact ⟨hget, congrArg (u :: ·) herase, hmay⟩
    · obtain ⟨rfl, rfl⟩ := Prod.mk.inj (Option.some.inj htake)
      rw [Bool.not_eq_true] at hskip
      rw [hskip]
      exact ⟨rfl, rfl, rfl⟩

/-- The scan takes nothing only if the worker may take nothing. -/
theorem take_eq_none {state : ℕ → FiberState} {q : List FiberAndThread} :
    take state w q = none ↔ ∀ t ∈ q, skips state w t = true := by
  induction q with
  | nil => simp [take]
  | cons u q ih =>
    rw [take, List.forall_mem_cons]
    split_ifs with hskip
    · rw [Option.map_eq_none_iff, ih, and_iff_right hskip]
    · exact iff_of_false (by simp) fun h => hskip h.1

/-! ### Numbered tasks -/

/-- What happens to a task. -/
inductive TaskEvent
  | pushed (t : FiberAndThread)
  /-- Worker `w` has taken it out of the queue. -/
  | removed (w : ℕ)
  /-- Worker `w` has called `swapIn` on the fiber `f` for it. -/
  | handed (w f : ℕ)
  /-- Worker `w` has dropped it when the state of its fiber was `st`. -/
  | skipped (w : ℕ) (st : FiberState)
  deriving DecidableEq

/-- What can have become of a task. -/
inductive TaskState
  | unborn
  | queued (t : FiberAndThread)
  | held (t : FiberAndThread) (w : ℕ)
  | handed (t : FiberAndThread) (w f : ℕ)
  | skipped (t : FiberAndThread) (w : ℕ) (st : FiberState)

namespace TaskState

/-- The history of the task. -/
def history : TaskState → List TaskEvent
  | unborn => []
  | queued t => [.pushed t]
  | held t w => [.pushed t, .removed w]
  | handed t w f => [.pushed t, .removed w, .handed w f]
  | skipped t w st => [.pushed t, .removed w, .skipped w st]

/-- A task for one thread is removed by that thread, a fiber is handed over itself, and only a task
whose fiber is over is dropped. -/
def Allowed : TaskState → Prop
  | unborn | queued _ => True
  | held t w => t.thread = none ∨ t.thread = some w
  | handed t w f => (t.thread = none ∨ t.thread = some w) ∧ ∀ g, t.job = .fiber g → g = f
  | skipped t w st =>
    (t.thread = none ∨ t.thread = some w) ∧ finished st = true ∧ ∃ f, t.job = .fiber f

end TaskState

/-- A scheduler whose tasks are numbered. -/
structure Ledger where
  sched : Scheduler
  /-- The numbers of the tasks in `m_fibers`, in order. -/
  ids : List ℕ
  /-- How many tasks have been pushed. -/
  pushed : ℕ
  /-- The task with a number. -/
  task : ℕ → FiberAndThread
  /-- The task a worker has removed and neither handed to `swapIn` nor dropped. -/
  holds : ℕ → Option ℕ
  log : List (ℕ × TaskEvent)

/-- The task that a step pushes to `m_fibers`. -/
def enqueued (s : Scheduler) : Step → Option FiberAndThread
  | .schedule job thread => some ⟨job, thread⟩
  | .trigger f => some ⟨.fiber f, none⟩
  | .post w =>
    match s.pc w with
    | .counted f _ => if s.state f = .READY then some ⟨.fiber f, none⟩ else none
    | _ => none
  | _ => none

namespace Ledger

def init : Ledger :=
  { sched := .init, ids := [], pushed := 0, task := fun _ => ⟨.cb 0, none⟩, holds := fun _ => none,
    log := [] }

/-- A task is pushed and gets the next number. -/
def push (l : Ledger) (t : FiberAndThread) : Ledger :=
  { l with
    ids := l.ids ++ [l.pushed]
    pushed := l.pushed + 1
    task := Function.update l.task l.pushed t
    log := l.log ++ [(l.pushed, .pushed t)] }

/-- Worker `w` removes the task at position `i` of the queue. -/
def remove (l : Ledger) (w i : ℕ) : Ledger :=
  match l.ids[i]? with
  | some id =>
    { l with
      ids := l.ids.eraseIdx i
      holds := Function.update l.holds w (some id)
      log := l.log ++ [(id, .removed w)] }
  | none => l

/-- Worker `w` is done with the task it holds. -/
def settle (l : Ledger) (w : ℕ) (e : TaskEvent) : Ledger :=
  match l.holds w with
  | some id =>
    { l with holds := Function.update l.holds w none, log := l.log ++ [(id, e)] }
  | none => l

/-- What a step of the scheduler means for the tasks. -/
def record (l : Ledger) : Step → Ledger
  | .dequeue w => l.remove w (l.sched.scanIdx w)
  | .check w =>
    match l.sched.pc w with
    | .taken f =>
      if finished (l.sched.state f) then l.settle w (.skipped w (l.sched.state f)) else l
    | _ => l
  | .swapIn w =>
    match l.sched.pc w with
    | .entering f _ => l.settle w (.handed w f)
    | _ => l
  | a =>
    match enqueued l.sched a with
    | some t => l.push t
    | none => l

def next (l : Ledger) (a : Step) : Option Ledger :=
  (l.sched.next a).map fun s => { l.record a with sched := s }

/-- What is known about the job of the task that a worker carries from the scan to `swapIn`: the
fiber it goes on with is the task's. -/
def fits : Pc → Option (Job → Prop)
  | .taken f | .entering f false => some fun job => job = .fiber f
  | .takenCb c => some fun job => job = .cb c
  | .entering _ true => some fun job => ∃ c, job = .cb c
  | _ => none

/-- A worker holds a task exactly while it carries one. -/
def Carry (task : ℕ → FiberAndThread) (pc : Pc) (held : Option ℕ) : Prop :=
  match fits pc, held with
  | some fits, some id => fits (task id).job
  | none, none => True
  | _, _ => False

theorem Carry.eq_none {task : ℕ → FiberAndThread} {pc : Pc} {held : Option ℕ}
    (h : Carry task pc held) (hpc : fits pc = none) : held = none := by
  unfold Carry at h
  rw [hpc] at h
  cases held with
  | none => rfl
  | some id => exact h.elim

theorem Carry.eq_some {task : ℕ → FiberAndThread} {pc : Pc} {held : Option ℕ} {P : Job → Prop}
    (h : Carry task pc held) (hpc : fits pc = some P) : ∃ id, held = some id ∧ P (task id).job := by
  unfold Carry at h
  rw [hpc] at h
  cases held with
  | none => exact h.elim
  | some id => exact ⟨id, rfl, h⟩

/-- The task `id` is in the state `ts`. -/
def IsAt (l : Ledger) (id : ℕ) : TaskState → Prop
  | .unborn => l.pushed ≤ id ∧ id ∉ l.ids ∧ ∀ w, l.holds w ≠ some id
  | .queued t => id < l.pushed ∧ l.task id = t ∧ id ∈ l.ids ∧ ∀ w, l.holds w ≠ some id
  | .held t w => id < l.pushed ∧ l.task id = t ∧ id ∉ l.ids ∧ ∀ w', l.holds w' = some id ↔ w' = w
  | .handed t _ _ | .skipped t _ _ =>
    id < l.pushed ∧ l.task id = t ∧ id ∉ l.ids ∧ ∀ w, l.holds w ≠ some id

/-- The history of the task `id` is that of a state it can be in, and it is in that state. -/
def Lives (l : Ledger) (id : ℕ) : Prop :=
  ∃ ts : TaskState, ts.Allowed ∧ KeyedLog.entries id l.log = ts.history ∧ l.IsAt id ts

/-- The invariant. -/
structure Inv (l : Ledger) : Prop where
  queue : l.sched.fibers = l.ids.map l.task
  nodup : l.ids.Nodup
  lives : ∀ id, l.Lives id
  carries : l.sched.fault = none → ∀ w, Carry l.task (l.sched.pc w) (l.holds w)

variable {l : Ledger}

theorem Inv.lt_of_mem (h : l.Inv) {id : ℕ} (hid : id ∈ l.ids) : id < l.pushed := by
  obtain ⟨ts, -, -, hat⟩ := h.lives id
  cases ts with
  | unborn => exact absurd hid hat.2.1
  | queued | held | handed | skipped => exact hat.1

theorem Inv.lt_of_holds (h : l.Inv) {w id : ℕ} (hid : l.holds w = some id) : id < l.pushed := by
  obtain ⟨ts, -, -, hat⟩ := h.lives id
  cases ts with
  | unborn => exact absurd hid (hat.2.2 w)
  | queued | held | handed | skipped => exact hat.1

/-- A task in the queue has been pushed and nothing else has happened to it. -/
theorem Inv.of_mem (h : l.Inv) {id : ℕ} (hid : id ∈ l.ids) :
    KeyedLog.entries id l.log = [.pushed (l.task id)] ∧ ∀ w, l.holds w ≠ some id := by
  obtain ⟨ts, -, hhistory, hat⟩ := h.lives id
  cases ts with
  | unborn => exact absurd hid hat.2.1
  | queued t =>
    obtain ⟨-, rfl, -, hholds⟩ := hat
    exact ⟨hhistory, hholds⟩
  | held | handed | skipped => exact absurd hid hat.2.2.1

/-- A task that a worker holds has been pushed and removed by this worker, and nothing else. -/
theorem Inv.of_holds (h : l.Inv) {w id : ℕ} (hid : l.holds w = some id) :
    KeyedLog.entries id l.log = [.pushed (l.task id), .removed w] ∧ id ∉ l.ids ∧
      ((l.task id).thread = none ∨ (l.task id).thread = some w) ∧
      ∀ w', l.holds w' = some id ↔ w' = w := by
  obtain ⟨ts, hallowed, hhistory, hat⟩ := h.lives id
  cases ts with
  | unborn => exact absurd hid (hat.2.2 w)
  | queued | handed | skipped => exact absurd hid (hat.2.2.2 w)
  | held t v =>
    obtain ⟨-, rfl, hmem, hholds⟩ := hat
    obtain rfl := (hholds w).mp hid
    exact ⟨hhistory, hmem, hallowed, hholds⟩

theorem inv_init : init.Inv where
  queue := rfl
  nodup := List.nodup_nil
  lives id := ⟨.unborn, trivial, rfl, Nat.zero_le id, List.not_mem_nil, fun _ h => by cases h⟩
  carries _ _ := trivial

/-- Nothing has happened to the task `id`. -/
theorem Lives.of_same {l' : Ledger} {id : ℕ} (h : l.Lives id)
    (hentries : KeyedLog.entries id l'.log = KeyedLog.entries id l.log)
    (hlt : id < l'.pushed ↔ id < l.pushed) (htask : id < l.pushed → l'.task id = l.task id)
    (hmem : id ∈ l'.ids ↔ id ∈ l.ids) (hholds : ∀ w, l'.holds w = some id ↔ l.holds w = some id) :
    l'.Lives id := by
  obtain ⟨ts, hallowed, hhistory, hat⟩ := h
  refine ⟨ts, hallowed, hentries.trans hhistory, ?_⟩
  cases ts with
  | unborn =>
    obtain ⟨hle, hmem', hholds'⟩ := hat
    exact ⟨by omega, fun hid => hmem' (hmem.mp hid), fun w hid => hholds' w ((hholds w).mp hid)⟩
  | queued t =>
    obtain ⟨hlt', htask', hmem', hholds'⟩ := hat
    exact ⟨hlt.mpr hlt', (htask hlt').trans htask', hmem.mpr hmem',
      fun w hid => hholds' w ((hholds w).mp hid)⟩
  | held t v =>
    obtain ⟨hlt', htask', hmem', hholds'⟩ := hat
    exact ⟨hlt.mpr hlt', (htask hlt').trans htask', fun hid => hmem' (hmem.mp hid),
      fun w => (hholds w).trans (hholds' w)⟩
  | handed | skipped =>
    obtain ⟨hlt', htask', hmem', hholds'⟩ := hat
    exact ⟨hlt.mpr hlt', (htask hlt').trans htask', fun hid => hmem' (hmem.mp hid),
      fun w hid => hholds' w ((hholds w).mp hid)⟩

theorem Carry.congr {task task' : ℕ → FiberAndThread} {pc : Pc} {held : Option ℕ}
    (h : Carry task pc held) (htask : ∀ id, held = some id → task' id = task id) :
    Carry task' pc held := by
  unfold Carry at h ⊢
  cases hpc : fits pc <;> cases held <;> rw [hpc] at h
  · trivial
  · exact h
  · exact h
  next P id =>
    show P (task' id).job
    rw [htask id rfl]
    exact h

/-- What the workers carry when only the worker `w` has moved. -/
theorem Inv.carries_update (h : l.Inv) (hfault : l.sched.fault = none) {w : ℕ} {pc : ℕ → Pc}
    {p : Pc} (holds : ℕ → Option ℕ) (hpc : pc = Function.update l.sched.pc w p)
    (hholds : ∀ w', w' ≠ w → holds w' = l.holds w') (hself : Carry l.task p (holds w)) (w' : ℕ) :
    Carry l.task (pc w') (holds w') := by
  subst hpc
  by_cases hw : w' = w
  · rw [hw, Function.update_self]
    exact hself
  · rw [Function.update_of_ne hw, hholds w' hw]
    exact h.carries hfault w'

/-- A step that does not touch the tasks. -/
theorem Inv.keep (h : l.Inv) {s : Scheduler} (hfibers : s.fibers = l.sched.fibers)
    (hcarries : s.fault = none → ∀ w, Carry l.task (s.pc w) (l.holds w)) :
    Inv { l with sched := s } where
  queue := hfibers.trans h.queue
  nodup := h.nodup
  lives := h.lives
  carries := hcarries

/-- A task is pushed. -/
theorem Inv.push (h : l.Inv) {s : Scheduler} {t : FiberAndThread}
    (hfibers : s.fibers = l.sched.fibers ++ [t])
    (hcarries : s.fault = none → ∀ w, Carry l.task (s.pc w) (l.holds w)) :
    Inv { l.push t with sched := s } where
  queue := by
    have hold : l.ids.map (Function.update l.task l.pushed t) = l.ids.map l.task := by
      refine List.map_congr_left fun id hid => ?_
      have hne : id ≠ l.pushed := Nat.ne_of_lt (h.lt_of_mem hid)
      exact Function.update_of_ne hne _ _
    show s.fibers = (l.ids ++ [l.pushed]).map (Function.update l.task l.pushed t)
    rw [hfibers, h.queue, List.map_append, hold, List.map_singleton, Function.update_self]
  nodup := by
    have hfresh : l.pushed ∉ l.ids := fun hid => lt_irrefl _ (h.lt_of_mem hid)
    show (l.ids ++ [l.pushed]).Nodup
    rw [← List.concat_eq_append]
    exact h.nodup.concat hfresh
  lives id := by
    have hentries : KeyedLog.entries id (l.push t).log =
        KeyedLog.entries id l.log ++ if l.pushed = id then [.pushed t] else [] := by
      show KeyedLog.entries id (l.log ++ _) = _
      rw [KeyedLog.entries_append, KeyedLog.entries_singleton]
    by_cases hid : id = l.pushed
    · -- the new number
      subst hid
      obtain ⟨ts, -, hhistory, hat⟩ := h.lives l.pushed
      cases ts with
      | queued | held | handed | skipped => exact absurd hat.1 (lt_irrefl _)
      | unborn =>
        refine ⟨.queued t, trivial, ?_, Nat.lt_succ_self _, Function.update_self _ _ _,
          List.mem_append_right _ List.mem_cons_self, hat.2.2⟩
        rw [if_pos rfl, hhistory] at hentries
        exact hentries
    · refine (h.lives id).of_same ?_ ?_ (fun _ => Function.update_of_ne hid _ _) ?_ fun _ => Iff.rfl
      · rw [if_neg (Ne.symm hid), List.append_nil] at hentries
        exact hentries
      · show id < l.pushed + 1 ↔ id < l.pushed
        omega
      · show id ∈ l.ids ++ [l.pushed] ↔ id ∈ l.ids
        simp [hid]
  carries hfault w := by
    refine Carry.congr (hcarries hfault w) fun id hid => ?_
    have hne : id ≠ l.pushed := Nat.ne_of_lt (h.lt_of_holds hid)
    exact Function.update_of_ne hne _ _

theorem remove_eq {w i id : ℕ} (hid : l.ids[i]? = some id) :
    l.remove w i =
      { l with
        ids := l.ids.eraseIdx i
        holds := Function.update l.holds w (some id)
        log := l.log ++ [(id, .removed w)] } := by
  unfold Ledger.remove
  rw [hid]

theorem Inv.mem_eraseIdx (h : l.Inv) {i id id' : ℕ} (hid : l.ids[i]? = some id) :
    id' ∈ l.ids.eraseIdx i ↔ id' ≠ id ∧ id' ∈ l.ids := by
  obtain ⟨hlt, hget⟩ := List.getElem?_eq_some_iff.mp hid
  have heq : l.ids.eraseIdx i = l.ids.erase id := by
    rw [← hget]
    exact (h.nodup.erase_getElem i hlt).symm
  rw [heq, h.nodup.mem_erase_iff]

/-- The removed task is with the worker, and the others are where they were. -/
theorem Inv.lives_remove (h : l.Inv) {w i id : ℕ} (hid : l.ids[i]? = some id)
    (hthread : (l.task id).thread = none ∨ (l.task id).thread = some w)
    (hnone : l.holds w = none) (id' : ℕ) : (l.remove w i).Lives id' := by
  have hmem : id ∈ l.ids := List.mem_of_getElem? hid
  obtain ⟨hhistory, hholds⟩ := h.of_mem hmem
  have hentries : KeyedLog.entries id' (l.log ++ [(id, .removed w)]) =
      KeyedLog.entries id' l.log ++ if id = id' then [.removed w] else [] := by
    rw [KeyedLog.entries_append, KeyedLog.entries_singleton]
  have hupdate : ∀ v, Function.update l.holds w (some id) v = some id' ↔
      if v = w then id = id' else l.holds v = some id' := by
    intro v
    by_cases hv : v = w
    · simp [hv]
    · simp [hv]
  rw [remove_eq hid]
  by_cases heq : id' = id
  · subst heq
    refine ⟨.held (l.task id') w, hthread, ?_, h.lt_of_mem hmem, rfl,
      fun hin => ((h.mem_eraseIdx hid).mp hin).1 rfl, fun v => ?_⟩
    · rw [if_pos rfl, hhistory] at hentries
      exact hentries
    · refine (hupdate v).trans ?_
      split_ifs with hv
      · simp [hv]
      · simp [hv, hholds v]
  · refine (h.lives id').of_same ?_ Iff.rfl (fun _ => rfl) ?_ fun v => ?_
    · rw [if_neg (Ne.symm heq), List.append_nil] at hentries
      exact hentries
    · rw [h.mem_eraseIdx hid]
      exact and_iff_right heq
    · refine (hupdate v).trans ?_
      split_ifs with hv
      · rw [hv, hnone]
        simp [Ne.symm heq]
      · exact Iff.rfl

/-- Worker `w` removes the task it may take. -/
theorem Inv.remove (h : l.Inv) {w : ℕ} {t : FiberAndThread} {ts : List FiberAndThread}
    {s : Scheduler} (hpc : l.sched.pc w = .scanning) (hfault : l.sched.fault = none)
    (htake : take l.sched.state w l.sched.fibers = some (t, ts)) (hfibers : s.fibers = ts)
    (hspc : s.pc = Function.update l.sched.pc w (.ofJob t.job)) :
    Inv { l.remove w (l.sched.scanIdx w) with sched := s } := by
  obtain ⟨i, hi⟩ : ∃ i, l.sched.scanIdx w = i := ⟨_, rfl⟩
  obtain ⟨hget, herase, hmay⟩ := take_eq_some htake
  change l.sched.fibers[l.sched.scanIdx w]? = some t at hget
  change ts = l.sched.fibers.eraseIdx (l.sched.scanIdx w) at herase
  rw [hi] at hget herase ⊢
  rw [h.queue, List.getElem?_map, Option.map_eq_some_iff] at hget
  obtain ⟨id, hid, htask⟩ := hget
  have hthread : t.thread = none ∨ t.thread = some w := by
    unfold skips at hmay
    rw [Bool.or_eq_false_iff] at hmay
    cases hthread : t.thread with
    | none => exact Or.inl rfl
    | some v => simpa [hthread] using hmay.1
  have hnone : l.holds w = none := (h.carries hfault w).eq_none (by rw [hpc]; rfl)
  have hlives := h.lives_remove hid (htask.symm ▸ hthread) hnone
  rw [remove_eq hid] at hlives ⊢
  constructor
  case queue =>
    show s.fibers = (l.ids.eraseIdx i).map l.task
    rw [hfibers, herase, h.queue, List.eraseIdx_map]
  case nodup => exact h.nodup.sublist (List.eraseIdx_sublist _ _)
  case lives => exact hlives
  case carries =>
    intro _ v
    refine h.carries_update hfault (Function.update l.holds w (some id)) hspc
      (fun v hv => Function.update_of_ne hv _ _) ?_ v
    rw [Function.update_self]
    cases hjob : t.job with
    | fiber f | cb c =>
      show (l.task id).job = _
      rw [htask, hjob]

/-- Worker `w` is done with the task it holds. -/
theorem Inv.settle (h : l.Inv) {w id : ℕ} {e : TaskEvent} (ts : TaskState) {s : Scheduler}
    (hid : l.holds w = some id) (hfault : l.sched.fault = none) (hallowed : ts.Allowed)
    (hts : ts.history = [.pushed (l.task id), .removed w, e])
    (hat : ∀ l' : Ledger, id < l'.pushed ∧ l'.task id = l.task id ∧ id ∉ l'.ids ∧
      (∀ v, l'.holds v ≠ some id) → l'.IsAt id ts)
    (hfibers : s.fibers = l.sched.fibers)
    (hcarries : s.fault = none →
      ∃ pc, s.pc = Function.update l.sched.pc w pc ∧ Carry l.task pc none) :
    Inv { l.settle w e with sched := s } := by
  obtain ⟨hhistory, hmem, hthread, hholds⟩ := h.of_holds hid
  have hsettle : l.settle w e =
      { l with holds := Function.update l.holds w none, log := l.log ++ [(id, e)] } := by
    unfold Ledger.settle
    rw [hid]
  have hupdate : ∀ v id', Function.update l.holds w none v = some id' ↔
      v ≠ w ∧ l.holds v = some id' := by
    intro v id'
    by_cases hv : v = w
    · simp [hv]
    · simp [hv]
  rw [hsettle]
  constructor
  case queue => exact hfibers.trans h.queue
  case nodup => exact h.nodup
  case lives =>
    intro id'
    have hentries : KeyedLog.entries id' (l.log ++ [(id, e)]) =
        KeyedLog.entries id' l.log ++ if id = id' then [e] else [] := by
      rw [KeyedLog.entries_append, KeyedLog.entries_singleton]
    by_cases heq : id' = id
    · subst heq
      refine ⟨ts, hallowed, ?_, hat _ ⟨h.lt_of_holds hid, rfl, hmem, fun v hv => ?_⟩⟩
      · rw [if_pos rfl, hhistory] at hentries
        exact hentries.trans hts.symm
      · obtain ⟨hne, hv⟩ := (hupdate v id').mp hv
        exact hne ((hholds v).mp hv)
    · refine (h.lives id').of_same ?_ Iff.rfl (fun _ => rfl) Iff.rfl fun v => ?_
      · rw [if_neg (Ne.symm heq), List.append_nil] at hentries
        exact hentries
      · refine (hupdate v id').trans (and_iff_right_of_imp ?_)
        rintro hv rfl
        rw [hid] at hv
        exact heq (Option.some.inj hv).symm
  case carries =>
    intro hs v
    obtain ⟨pc, hpc, hcarry⟩ := hcarries hs
    refine h.carries_update hfault (Function.update l.holds w none) hpc
      (fun v hv => Function.update_of_ne hv _ _) ?_ v
    rw [Function.update_self]
    exact hcarry

/-- What the workers carry when a worker that carries nothing moves on with nothing. -/
theorem Inv.carries_move (h : l.Inv) (hfault : l.sched.fault = none) {w : ℕ} {pc : ℕ → Pc} {p : Pc}
    (hpc : pc = Function.update l.sched.pc w p) (hold : fits (l.sched.pc w) = none)
    (hnew : fits p = none) (w' : ℕ) : Carry l.task (pc w') (l.holds w') := by
  refine h.carries_update hfault l.holds hpc (fun _ _ => rfl) ?_ w'
  rw [(h.carries hfault w).eq_none hold]
  unfold Carry
  rw [hnew]
  trivial

/-- The scan passes over the whole queue. -/
theorem Inv.remove_nothing (h : l.Inv) {w : ℕ}
    (htake : take l.sched.state w l.sched.fibers = none) :
    l.remove w (l.sched.scanIdx w) = l := by
  have hidx : l.sched.scanIdx w = l.ids.length := by
    unfold scanIdx
    rw [List.findIdx_eq_length.mpr, h.queue, List.length_map]
    intro t ht
    rw [take_eq_none.mp htake t ht]
    rfl
  unfold Ledger.remove
  rw [hidx, List.getElem?_eq_none le_rfl]

/-- Worker `w` calls `swapIn`. -/
theorem Inv.swapIn (h : l.Inv) (hfault : l.sched.fault = none) {w f : ℕ} {isCb : Bool}
    (hpc : l.sched.pc w = .entering f isCb) {s : Scheduler} (hfibers : s.fibers = l.sched.fibers)
    (hcarries : s.fault = none →
      ∃ pc, s.pc = Function.update l.sched.pc w pc ∧ Carry l.task pc none) :
    Inv { l.record (.swapIn w) with sched := s } := by
  have hrecord : l.record (.swapIn w) = l.settle w (.handed w f) := by simp [record, hpc]
  rw [hrecord]
  have hcarry := h.carries hfault w
  rw [hpc] at hcarry
  obtain ⟨id, hid, hjob⟩ : ∃ id, l.holds w = some id ∧ ∀ g, (l.task id).job = .fiber g → g = f := by
    cases isCb with
    | false =>
      obtain ⟨id, hid, hjob⟩ := hcarry.eq_some rfl
      refine ⟨id, hid, fun g hg => ?_⟩
      rw [hjob] at hg
      exact (Job.fiber.inj hg).symm
    | true =>
      obtain ⟨id, hid, c, hjob⟩ := hcarry.eq_some rfl
      refine ⟨id, hid, fun g hg => ?_⟩
      rw [hjob] at hg
      cases hg
  exact h.settle (.handed (l.task id) w f) hid hfault ⟨(h.of_holds hid).2.2.1, hjob⟩ rfl
    (fun l' hat => hat) hfibers hcarries

/-- **Step lemma.** -/
theorem Inv.next (h : l.Inv) {a : Step} {l' : Ledger} (hnext : l.next a = some l') : l'.Inv := by
  obtain ⟨s, hsched, rfl⟩ := Option.map_eq_some_iff.mp hnext
  obtain ⟨hfault, hnext⟩ := Next.of_next hsched
  have hcarries := h.carries hfault
  cases hnext with
  | scheduled | triggered => exact h.push rfl fun _ => hcarries
  | built | registered => exact h.keep rfl fun _ => hcarries
  | nothing hpc htake =>
    show Inv { l.remove _ (l.sched.scanIdx _) with sched := l.sched }
    rw [h.remove_nothing htake]
    exact h
  | took hpc htake => exact h.remove hpc hfault htake rfl rfl
  | @spent w f hpc hstate =>
    obtain ⟨id, hid, hjob⟩ := (hcarries w).eq_some (by rw [hpc]; rfl)
    have hrecord : l.record (.check w) = l.settle w (.skipped w (l.sched.state f)) := by
      simp [record, hpc, hstate]
    rw [hrecord]
    refine h.settle (.skipped (l.task id) w (l.sched.state f)) hid hfault
      ⟨(h.of_holds hid).2.2.1, hstate, f, hjob⟩ rfl (fun l' hat => hat) rfl
      fun _ => ⟨.dropping, rfl, trivial⟩
  | @alive w f hpc hstate =>
    obtain ⟨id, hid, hjob⟩ := (hcarries w).eq_some (by rw [hpc]; rfl)
    have hrecord : l.record (.check w) = l := by simp [record, hpc, hstate]
    rw [hrecord]
    refine h.keep rfl fun _ => h.carries_update hfault l.holds rfl (fun _ _ => rfl) ?_
    rw [hid]
    exact hjob
  | @reused w c f hpc hcb | @constructed w c hpc hcb =>
    obtain ⟨id, hid, hjob⟩ := (hcarries w).eq_some (by rw [hpc]; rfl)
    refine h.keep rfl fun _ => h.carries_update hfault l.holds rfl (fun _ _ => rfl) ?_
    rw [hid]
    exact ⟨c, hjob⟩
  | resetFailed => exact h.keep rfl fun hnone => by cases hnone
  | swapInFailed hpc hfail => exact h.swapIn hfault hpc rfl fun hnone => by cases hnone
  | entered hpc hstate hrun => exact h.swapIn hfault hpc rfl fun _ => ⟨_, rfl, trivial⟩
  | yieldFailed => exact h.keep rfl fun hnone => by cases hnone
  | yielded hpc | swappedOut hpc | dropped hpc | counted hpc | put hpc =>
    exact h.keep rfl fun _ => h.carries_move hfault rfl (by rw [hpc]; rfl) rfl
  | @ready w f isCb hpc hstate =>
    have hrecord : l.record (.post w) = l.push ⟨.fiber f, none⟩ := by
      simp [record, enqueued, hpc, hstate]
    rw [hrecord]
    exact h.push rfl fun _ => h.carries_move hfault rfl (by rw [hpc]; rfl) rfl
  | @ended w f isCb hpc hstate =>
    have hrecord : l.record (.post w) = l := by
      have hne : l.sched.state f ≠ .READY := by
        intro heq
        rw [heq] at hstate
        cases hstate
      simp [record, enqueued, hpc, hne]
    rw [hrecord]
    cases isCb
    all_goals exact h.keep rfl fun _ => h.carries_move hfault rfl (by rw [hpc]; rfl) rfl
  | @waits w f isCb hpc hready hstate =>
    have hrecord : l.record (.post w) = l := by
      simp [record, enqueued, hpc, hready]
    rw [hrecord]
    exact h.keep rfl fun _ => h.carries_move hfault rfl (by rw [hpc]; rfl) rfl

/-! ### Runs -/

theorem next_sched {a : Step} {l' : Ledger} (hnext : l.next a = some l') :
    l.sched.next a = some l'.sched := by
  obtain ⟨s, hsched, rfl⟩ := Option.map_eq_some_iff.mp hnext
  exact hsched

end Ledger

end Muhui.Scheduler
