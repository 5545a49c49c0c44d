/-
  The addresses in use and the counter, in every run.

  Whatever the table of contexts goes through, each pointer that the table, the kernel, a record or
  a thread holds is the address of a context, the context in a slot is one for the descriptor of
  the slot, and `m_pendingEventCount` is the number of bits of all contexts created so far.  None
  of this needs a condition on the run; what does is the subject of the next two modules.
-/
import Mathlib.Algebra.BigOperators.Group.Finset.Piecewise
import Mathlib.Algebra.BigOperators.Group.Finset.Basic
import Mathlib.Data.Nat.Basic
import Muhui.IOManager.Assertion

namespace Muhui

/-- A call of `epoll_ctl` stores no pointer but the one it is given. -/
theorem Epoll.ctl_ptr {ep : Epoll} {op : EpollCtlOp} {fd fd' ptr p : ℕ} {n m : Events}
    {fails : Bool} (h : (ep.ctl op fd n ptr fails).2.interest fd' = some (m, p)) :
    ep.interest fd' = some (m, p) ∨ p = ptr := by
  unfold Epoll.ctl at h
  have hupdate (v : Option (Events × ℕ)) (hv : ∀ m p, v = some (m, p) → p = ptr)
      (h : Function.update ep.interest fd v fd' = some (m, p)) :
      ep.interest fd' = some (m, p) ∨ p = ptr := by
    by_cases hfd : fd' = fd
    · subst hfd
      rw [Function.update_self] at h
      exact Or.inr (hv m p h)
    · rw [Function.update_of_ne hfd] at h
      exact Or.inl h
  have hset : ∀ m p, some (n, ptr) = some (m, p) → p = ptr := by
    intro m p heq
    exact (Prod.mk.inj (Option.some.inj heq)).2.symm
  split_ifs at h
  · exact Or.inl h
  · cases op <;> cases hreg : (ep.interest fd).isSome <;> simp only [hreg] at h
    case ADD.false | MOD.true => exact hupdate _ hset h
    case DEL.true => exact hupdate none (fun m p heq => by cases heq) h
    all_goals exact Or.inl h

namespace IOManager

variable {io io' : IOManager} {ctx fd size : ℕ} {effect : FdContext.Effect} {fails b : Bool}

/-- The number of bits of the contexts created so far. -/
def eventCount (io : IOManager) : ℤ :=
  ∑ p ∈ Finset.range io.created, (io.mem p).events.count

/-- The pointers of the table and of the kernel are contexts, slot `q` holds one for the
descriptor `q`, and the counter counts the bits. -/
structure Sound (io : IOManager) : Prop where
  consistent : io.Consistent
  slot : ∀ q p, io.fdContexts[q]? = some p → p < io.created ∧ (io.mem p).fd = q
  ptr : ∀ q m p, io.epoll.interest q = some (m, p) → p < io.created
  count : io.pendingEventCount = io.eventCount

/-- A section changes neither the table nor the descriptor of a context. -/
theorem Commits.table (h : Commits io ctx fd effect fails b io') :
    io'.fdContexts = io.fdContexts ∧ io'.created = io.created ∧
      ∀ p, (io'.mem p).fd = (io.mem p).fd := by
  obtain ⟨htable, hcreated, ⟨hmem, -⟩ | ⟨c, tasks, hleaves, hmem, -⟩⟩ := h.writes
  · exact ⟨htable, hcreated, fun p => by rw [hmem]⟩
  · refine ⟨htable, hcreated, fun p => ?_⟩
    rw [hmem]
    by_cases hp : p = ctx
    · subst hp
      rw [Function.update_self, hleaves.fd]
    · rw [Function.update_of_ne hp]

theorem Commits.ptr (h : Commits io ctx fd effect fails b io') {q p : ℕ} {m : Events}
    (hq : io'.epoll.interest q = some (m, p)) : io.epoll.interest q = some (m, p) ∨ p = ctx := by
  rcases h with ⟨-, rfl⟩ | ⟨op, c, tasks, -, -, -, rfl⟩
  · exact Or.inl hq
  · cases b <;> exact Epoll.ctl_ptr hq

/-- The number of registered events after a write to one context. -/
theorem sum_count_update {mem : ℕ → FdContext} {n : ℕ} (hctx : ctx < n) (c : FdContext) :
    ∑ p ∈ Finset.range n, (Function.update mem ctx c p).events.count =
      (∑ p ∈ Finset.range n, (mem p).events.count) +
        (c.events.count - (mem ctx).events.count) := by
  have hmem : ctx ∈ Finset.range n := Finset.mem_range.mpr hctx
  have hothers : ∑ p ∈ (Finset.range n).erase ctx, (Function.update mem ctx c p).events.count =
      ∑ p ∈ (Finset.range n).erase ctx, (mem p).events.count :=
    Finset.sum_congr rfl fun p hp => by
      rw [Function.update_of_ne (Finset.ne_of_mem_erase hp)]
  rw [← Finset.add_sum_erase _ _ hmem,
    ← Finset.add_sum_erase _ (fun p => (mem p).events.count) hmem, hothers, Function.update_self]
  omega

theorem Commits.count (h : Commits io ctx fd effect fails b io') (hctx : ctx < io.created)
    (hcount : io.pendingEventCount = io.eventCount) : io'.pendingEventCount = io'.eventCount := by
  rcases h with ⟨-, rfl⟩ | ⟨op, c, tasks, -, -, -, rfl⟩
  · exact hcount
  · cases b
    · exact hcount
    · exact (congrArg (· + _) hcount).trans (sum_count_update hctx c).symm

/-- **A section keeps the pointers and the counter sound.** -/
theorem Sound.commits (h : io.Sound) (hctx : ctx < io.created)
    (hcommits : Commits io ctx fd effect fails b io') : io'.Sound := by
  obtain ⟨htable, hcreated, hfd⟩ := hcommits.table
  refine ⟨hcommits.consistent h.consistent, fun q p hslot => ?_, fun q m p hq => ?_,
    hcommits.count hctx h.count⟩
  · rw [htable] at hslot
    rw [hcreated, hfd]
    exact h.slot q p hslot
  · rw [hcreated]
    rcases hcommits.ptr hq with hold | rfl
    · exact h.ptr q m p hold
    · exact hctx

/-- What a resize leaves in the old contexts and puts into the new ones. -/
theorem contextResize_mem (io : IOManager) (size p : ℕ) :
    (p < io.created → (io.contextResize size).mem p = io.mem p) ∧
      (io.created ≤ p → p < (io.contextResize size).created →
        (io.contextResize size).mem p =
          .new ((io.fdContexts.take size).length + (p - io.created))) := by
  refine ⟨fun hp => ?_, fun hp hp' => ?_⟩
  · exact if_neg (by omega)
  · exact if_pos ⟨hp, hp'⟩

theorem contextResize_created (io : IOManager) (size : ℕ) :
    io.created ≤ (io.contextResize size).created :=
  Nat.le_add_right _ _

/-- New contexts have no events. -/
theorem contextResize_eventCount (io : IOManager) (size : ℕ) :
    (io.contextResize size).eventCount = io.eventCount := by
  have hle := io.contextResize_created size
  have hfront : ∑ p ∈ Finset.range io.created, ((io.contextResize size).mem p).events.count =
      io.eventCount :=
    Finset.sum_congr rfl fun p hp => by
      rw [(io.contextResize_mem size p).1 (Finset.mem_range.mp hp)]
  have hback : ∑ p ∈ Finset.range ((io.contextResize size).created - io.created),
      ((io.contextResize size).mem (io.created + p)).events.count = 0 := by
    refine Finset.sum_eq_zero fun p hp => ?_
    have hp := Finset.mem_range.mp hp
    rw [(io.contextResize_mem size _).2 (by omega) (by omega)]
    rfl
  rw [eventCount, ← Nat.add_sub_cancel' hle, Finset.sum_range_add, hfront, hback, add_zero]

theorem Sound.contextResize (h : io.Sound) (size : ℕ) : (io.contextResize size).Sound := by
  have hle := io.contextResize_created size
  refine ⟨contextResize_consistent h.consistent size, fun q p hslot => ?_, fun q m p hq => ?_,
    h.count.trans (io.contextResize_eventCount size).symm⟩
  · have hslot : (io.fdContexts.take size ++
        (List.range (size - (io.fdContexts.take size).length)).map (io.created + ·))[q]? =
          some p := hslot
    by_cases hq : q < (io.fdContexts.take size).length
    · -- a slot that was kept
      rw [List.getElem?_append_left hq] at hslot
      have hold : io.fdContexts[q]? = some p := by
        rw [List.length_take] at hq
        rwa [List.getElem?_take_of_lt (by omega)] at hslot
      obtain ⟨hp, hfd⟩ := h.slot q p hold
      rw [(io.contextResize_mem size p).1 hp]
      exact ⟨by omega, hfd⟩
    · -- a new slot
      rw [List.getElem?_append_right (by omega), List.getElem?_map, Option.map_eq_some_iff] at hslot
      obtain ⟨k, hk, rfl⟩ := hslot
      obtain ⟨hlt, rfl⟩ := List.getElem?_eq_some_iff.mp hk
      rw [List.length_range] at hlt
      rw [List.getElem_range] at hk ⊢
      have hcreated : (io.contextResize size).created =
          io.created + (size - (io.fdContexts.take size).length) := rfl
      rw [(io.contextResize_mem size _).2 (by omega) (by omega)]
      refine ⟨by omega, ?_⟩
      show (io.fdContexts.take size).length + _ = q
      omega
  · exact lt_of_lt_of_le (h.ptr q m p hq) hle

theorem Sound.forget (h : io.Sound) (fd : ℕ) : (io.forget fd).Sound := by
  refine ⟨h.consistent, h.slot, fun q m p hq => ?_, h.count⟩
  have hq : Function.update io.epoll.interest fd none q = some (m, p) := hq
  have hold : io.epoll.interest q = some (m, p) := by
    by_cases hfd : q = fd
    · subst hfd
      rw [Function.update_self] at hq
      cases hq
    · rwa [Function.update_of_ne hfd] at hq
  exact h.ptr q m p hold

/-- The contexts of a new `IOManager` are new. -/
theorem new_mem (p : ℕ) : ∃ fd, new.mem p = .new fd := by
  by_cases hp : 0 ≤ p ∧ p < 0 + (32 - 0)
  · exact ⟨_, if_pos hp⟩
  · exact ⟨_, if_neg hp⟩

theorem new_sound : new.Sound := by
  refine Sound.contextResize ⟨fun _ => FdContext.Consistent.new 0, fun q p hslot => ?_,
    fun q m p hq => ?_, rfl⟩ 32
  · cases hslot
  · cases hq

namespace System

variable {s s' : System} {a : Step}

/-- The pointers a thread holds are contexts, and a call holds one for its descriptor. -/
def PcSound (io : IOManager) : Pc → Prop
  | .outside | .growing _ _ => True
  | .holding ctx fd _ => ctx < io.created ∧ (io.mem ctx).fd = fd
  | .polling events => ∀ event ∈ events, event.ptr < io.created

structure Sound (s : System) : Prop where
  io : s.io.Sound
  pc : ∀ t, PcSound s.io (s.pc t)

theorem PcSound.mono {io io' : IOManager} (hcreated : io.created ≤ io'.created)
    (hfd : ∀ p < io.created, (io'.mem p).fd = (io.mem p).fd) :
    ∀ {pc : Pc}, PcSound io pc → PcSound io' pc
  | .outside, _ | .growing _ _, _ => trivial
  | .holding ctx _ _, ⟨hctx, heq⟩ => ⟨lt_of_lt_of_le hctx hcreated, (hfd ctx hctx).trans heq⟩
  | .polling _, hpc => fun event hevent => lt_of_lt_of_le (hpc event hevent) hcreated

/-- A step that moves one thread. -/
theorem Sound.move (h : s.Sound) {t : ℕ} {pc : Pc} {io : IOManager} (hio : io.Sound)
    (hcreated : s.io.created ≤ io.created)
    (hfd : ∀ p < s.io.created, (io.mem p).fd = (s.io.mem p).fd) (hpc : PcSound io pc) :
    (s.move t pc io).Sound := by
  refine ⟨hio, fun t' => ?_⟩
  by_cases ht : t' = t
  · subst ht
    simpa [System.move] using hpc
  · simpa [System.move, Function.update_of_ne ht] using (h.pc t').mono hcreated hfd

theorem Sound.commits (h : s.Sound) {t ctx fd : ℕ} {pc : Pc} {effect : FdContext.Effect}
    {fails b : Bool} {io : IOManager} (hctx : ctx < s.io.created)
    (hcommits : Commits s.io ctx fd effect fails b io)
    (hpc : PcSound s.io pc) : (s.move t pc io).Sound := by
  obtain ⟨-, hcreated, hfd⟩ := hcommits.table
  have hle : s.io.created ≤ io.created := le_of_eq hcreated.symm
  exact h.move (h.io.commits hctx hcommits) hle (fun p _ => hfd p)
    (hpc.mono hle fun p _ => hfd p)

theorem Sound.grow (h : s.Sound) (size t : ℕ) (pc : Pc)
    (hpc : PcSound (s.io.contextResize size) pc) :
    (s.move t pc (s.io.contextResize size)).Sound :=
  h.move (h.io.contextResize size) (s.io.contextResize_created size)
    (fun p hp => by rw [(s.io.contextResize_mem size p).1 hp]) hpc

/-- The records of `epoll_wait` point to contexts. -/
theorem ptr_lt_of_epollWait {io : IOManager} (h : io.Sound) {ready : List (ℕ × Events × Bool)}
    {events : List EpollEvent} (hevents : epollWait io.epoll ready = some events) :
    ∀ event ∈ events, event.ptr < io.created := by
  unfold epollWait at hevents
  split_ifs at hevents
  obtain rfl := Option.some.inj hevents
  intro event hevent
  obtain ⟨r, -, hrecord⟩ := List.mem_filterMap.mp hevent
  unfold record at hrecord
  split at hrecord
  next heq => cases hrecord
  next mask ptr heq =>
    split_ifs at hrecord
    obtain rfl := Option.some.inj hrecord
    exact h.ptr _ _ _ heq

/-- **Step lemma.** -/
theorem Sound.next (h : s.Sound) (hnext : s.next a = some s') : s'.Sound := by
  obtain ⟨-, hnext⟩ := Next.of_next hnext
  have hstay {t : ℕ} {pc : Pc} (hpc : PcSound s.io pc) : (s.move t pc s.io).Sound :=
    h.move h.io le_rfl (fun _ _ => rfl) hpc
  cases hnext with
  | found t fd c ctx hpc hctx => exact hstay (h.io.slot fd ctx hctx)
  | missing | finished => exact hstay trivial
  | refused => exact h
  | grown t fd c ctx hpc hctx => exact h.grow _ t _ ((h.io.contextResize _).slot fd ctx hctx)
  | outOfBounds t fd c hpc hctx =>
    -- nobody moves, so any thread may be taken to move to where it is
    have hsame := h.grow (growTarget fd) t (s.pc t) (by rw [hpc]; trivial)
    rw [System.move, Function.update_eq_self] at hsame
    exact ⟨hsame.io, hsame.pc⟩
  | returned t ctx fd c fails b io hpc hrun =>
    have hholding := h.pc t
    rw [hpc] at hholding
    exact h.commits hholding.1 (Call.run_commits h.io.consistent hrun) trivial
  | asserted | failed => exact ⟨h.io, h.pc⟩
  | waited t ready events hpc hevents => exact hstay (ptr_lt_of_epollWait h.io hevents)
  | handled t event events fails io hpc hrun =>
    have hpolling := h.pc t
    rw [hpc] at hpolling
    obtain ⟨-, b, hcommits⟩ := handleEvent_ok h.io.consistent hrun
    exact h.commits (hpolling event List.mem_cons_self) hcommits
      fun event' hevent' => hpolling event' (List.mem_cons_of_mem event hevent')
  | closed fd => exact ⟨h.io.forget fd, h.pc⟩

/-- Only a resize changes the table. -/
theorem fdContexts_next (h : s.io.Consistent) (hnext : s.next a = some s')
    (ha : ∀ t, a ≠ .grow t) : s'.io.fdContexts = s.io.fdContexts := by
  obtain ⟨-, hnext⟩ := Next.of_next hnext
  cases hnext with
  | grown t | outOfBounds t => exact absurd rfl (ha t)
  | returned t ctx fd c fails b io hpc hrun => exact (Call.run_commits h hrun).table.1
  | handled t event events fails io hpc hrun =>
    obtain ⟨-, b, hcommits⟩ := handleEvent_ok h hrun
    exact hcommits.table.1
  | found | missing | refused | asserted | waited | finished | failed | closed => rfl

theorem sound_init : init.Sound := ⟨new_sound, fun _ => trivial⟩

end System

end IOManager

end Muhui
