/-
  What the hooked `close` leaves behind.

  `cancelAll` sweeps one context, that of the closing thread's `IOManager`, at one moment.  A
  registration with another `IOManager` is out of its reach, and so is one that a reader makes
  between the sweep and `close_f`.  `close_of_run` says that there is nothing else: when neither
  happens, no context has an event of the closed descriptor, no fiber is left waiting on it and
  no counter counts it.
-/
import Muhui.Hook.Close

namespace Muhui

namespace IOManager

variable {io io' : IOManager} {ctx fd fd' : ℕ} {effect : FdContext.Effect} {fails b : Bool}
  {task : Task}

/-- No context has an event of the descriptor. -/
def Bare (fd : ℕ) (io : IOManager) : Prop :=
  ∀ p < io.created, (io.mem p).fd = fd → (io.mem p).events = .NONE

/-- The fiber of the task waits for an event of the descriptor, or has been resumed. -/
def WaitsFor (fd : ℕ) (task : Task) (io : IOManager) : Prop :=
  task ∈ io.scheduled ∨
    ∃ p < io.created, ∃ e, (io.mem p).fd = fd ∧ (io.mem p).events.test e = true ∧
      task ∈ ((io.mem p).getContext e).tasks

theorem WaitsFor.scheduled (h : WaitsFor fd task io) (hbare : Bare fd io) :
    task ∈ io.scheduled := by
  rcases h with h | ⟨p, hp, e, hfd, htest, -⟩
  · exact h
  · exact absurd (hbare p hp hfd) (Events.ne_NONE_of_test htest)

/-- The task of an event that has been taken out is among those handed over. -/
theorem mem_cleared {c c' : FdContext} {e : Event} (hold : c.events.test e = true)
    (hnew : c'.events.test e = false) (htask : task ∈ (c.getContext e).tasks) :
    task ∈ c.cleared c' := by
  have hdiff : (c.events.diff c'.events).test e = true := by
    have heq : (c.events.diff c'.events).test e = (c.events.test e && !c'.events.test e) := by
      cases e <;> rfl
    rw [heq, hold, hnew]
    rfl
  rw [FdContext.cleared, List.mem_append, FdContext.taskIf, FdContext.taskIf]
  cases e
  · rw [if_pos hdiff]
    exact Or.inl htask
  · rw [if_pos hdiff]
    exact Or.inr htask

/-- **A section forgets nobody**, unless it drops the waiters of this descriptor. -/
theorem Commits.waitsFor (hcommits : Commits io ctx fd' effect fails b io')
    (heffect : effect ≠ .drops ∨ (io.mem ctx).fd ≠ fd) (h : WaitsFor fd task io) :
    WaitsFor fd task io' := by
  obtain ⟨-, hcreated, ⟨hmem, hscheduled⟩ | ⟨c, tasks, hleaves, hmem, hscheduled⟩⟩ :=
    hcommits.writes
  · rwa [WaitsFor, hmem, hscheduled, hcreated]
  rw [WaitsFor, hmem, hscheduled, hcreated]
  rcases h with h | ⟨p, hp, e, hfd, htest, htask⟩
  · exact Or.inl (List.mem_append_left _ h)
  by_cases hpc : p = ctx
  · subst hpc
    cases hnew : c.events.test e with
    | true =>
      -- the event stays, and its waiter with it
      refine Or.inr ⟨p, hp, e, ?_⟩
      rw [Function.update_self, hleaves.kept e htest hnew]
      exact ⟨hleaves.fd.trans hfd, hnew, htask⟩
    | false =>
      refine Or.inl (List.mem_append_right _ ?_)
      have hcleared := mem_cleared htest hnew htask
      have hdrops := heffect.resolve_right (not_not_intro hfd)
      rw [hleaves.tasks]
      cases effect with
      | adds e ctx | wakes => exact hcleared
      | drops => exact absurd rfl hdrops
  · refine Or.inr ⟨p, hp, e, ?_⟩
    rw [Function.update_of_ne hpc]
    exact ⟨hfd, htest, htask⟩

/-- **A section registers nothing**, unless it adds an event of this descriptor. -/
theorem Commits.bare (hcommits : Commits io ctx fd' effect fails b io')
    (heffect : (∀ e c, effect ≠ .adds e c) ∨ (io.mem ctx).fd ≠ fd) (h : Bare fd io) :
    Bare fd io' := by
  obtain ⟨-, hcreated, ⟨hmem, -⟩ | ⟨c, tasks, hleaves, hmem, -⟩⟩ := hcommits.writes
  · rwa [Bare, hmem, hcreated]
  intro p hp hfd
  rw [hcreated] at hp
  rw [hmem] at hfd ⊢
  by_cases hpc : p = ctx
  · subst hpc
    rw [Function.update_self] at hfd ⊢
    rw [hleaves.fd] at hfd
    have hold := h p hp hfd
    have hadds := heffect.resolve_right (not_not_intro hfd)
    rw [Events.eq_NONE_iff] at hold ⊢
    intro e
    by_contra hnew
    exact hadds e _ (hleaves.new e (hold e) ((Bool.not_eq_false _).mp hnew))
  · rw [Function.update_of_ne hpc] at hfd ⊢
    exact h p hp hfd

theorem contextResize_waitsFor (size : ℕ) (h : WaitsFor fd task io) :
    WaitsFor fd task (io.contextResize size) := by
  rcases h with h | ⟨p, hp, e, h⟩
  · exact Or.inl h
  · refine Or.inr ⟨p, lt_of_lt_of_le hp (io.contextResize_created size), e, ?_⟩
    rwa [(io.contextResize_mem size p).1 hp]

theorem contextResize_bare (size : ℕ) (h : Bare fd io) : Bare fd (io.contextResize size) := by
  intro p hp hfd
  by_cases hold : p < io.created
  · rw [(io.contextResize_mem size p).1 hold] at hfd ⊢
    exact h p hold hfd
  · rw [(io.contextResize_mem size p).2 (by omega) hp]
    rfl

namespace System

variable {s s' : System} {a : Step}

/-- **A step keeps what its section keeps.** What a section keeps unless its effect on this
descriptor is one that `Breaks` it, and what does not depend on the table, a step keeps when no
section on this descriptor has such an effect. -/
theorem keeps_next (Keeps : IOManager → Prop) (Breaks : FdContext.Effect → Prop)
    (hresize : ∀ io size, Keeps io → Keeps (io.contextResize size))
    (hforget : ∀ io fd, Keeps io → Keeps (io.forget fd))
    (hcommits : ∀ {io io' ctx fd' effect fails b}, Commits io ctx fd' effect fails b io' →
      ¬ Breaks effect ∨ (io.mem ctx).fd ≠ fd → Keeps io → Keeps io')
    (hwakes : ¬ Breaks .wakes) (hs : s.Sound) (hnext : s.next a = some s')
    (hkeeps : ∀ t fails ctx c, a = .critical t fails → s.pc t = .holding ctx fd c →
      ¬ Breaks c.effect)
    (h : Keeps s.io) : Keeps s'.io := by
  obtain ⟨-, hnext⟩ := Next.of_next hnext
  cases hnext with
  | grown | outOfBounds => exact hresize _ _ h
  | returned t ctx fd' c fails b io hpc hrun =>
    refine hcommits (Call.run_commits hs.io.consistent hrun) ?_ h
    have hctx := hs.pc t
    rw [hpc] at hctx
    by_cases hfd : fd' = fd
    · subst hfd
      exact Or.inl (hkeeps t fails ctx c rfl hpc)
    · exact Or.inr fun heq => hfd (hctx.2.symm.trans heq)
  | handled t event events fails io hpc hrun =>
    obtain ⟨-, b, hhandled⟩ := handleEvent_ok hs.io.consistent hrun
    exact hcommits hhandled (Or.inl hwakes) h
  | closed => exact hforget _ _ h
  | found | missing | refused | asserted | waited | finished | failed => exact h

/-- **A step forgets nobody** when it is no `delEvent` on this descriptor. -/
theorem waitsFor_next (hs : s.Sound) (hnext : s.next a = some s')
    (hdrops : ∀ t fails ctx c, a = .critical t fails → s.pc t = .holding ctx fd c →
      c.effect ≠ .drops)
    (h : WaitsFor fd task s.io) : WaitsFor fd task s'.io :=
  keeps_next (WaitsFor fd task) (· = .drops) (fun _ size => contextResize_waitsFor size)
    (fun _ _ h => h) Commits.waitsFor nofun hs hnext hdrops h

/-- **A step registers nothing** when it is no `addEvent` on this descriptor. -/
theorem bare_next (hs : s.Sound) (hnext : s.next a = some s')
    (hadds : ∀ t fails ctx c, a = .critical t fails → s.pc t = .holding ctx fd c →
      ∀ e x, c.effect ≠ .adds e x)
    (h : Bare fd s.io) : Bare fd s'.io :=
  keeps_next (Bare fd) (fun effect => ∃ e x, effect = .adds e x)
    (fun _ size => contextResize_bare size) (fun _ _ h => h)
    (fun hcommits heffect => hcommits.bare (heffect.imp_left fun hno e x heq => hno ⟨e, x, heq⟩))
    (by rintro ⟨e, x, ⟨⟩⟩) hs hnext
    (fun t fails ctx c heq hpc ⟨e, x, hx⟩ => hadds t fails ctx c heq hpc e x hx) h

/-- The thread is in the call `c` on `fd`. -/
def On (fd : ℕ) (c : Call) (pc : Pc) : Prop :=
  pc = .growing fd c ∨ ∃ ctx, pc = .holding ctx fd c

theorem On.busy {c : Call} {pc : Pc} (h : On fd c pc) : pc.busy := by
  rcases h with rfl | ⟨ctx, rfl⟩ <;> rfl

theorem On.inj {c c' : Call} {pc : Pc} (h : On fd c pc) (h' : On fd c' pc) : c = c' := by
  rcases h with rfl | ⟨ctx, rfl⟩ <;> rcases h' with h' | ⟨ctx', h'⟩
  · exact (Pc.growing.inj h').2
  · cases h'
  · cases h'
  · exact (Pc.holding.inj h').2.2

/-- A thread that looks its context up is in its call, unless the call gives up. -/
theorem On.of_call {t : ℕ} {c : Call} (hnext : s.next (.call t fd c) = some s') :
    s.pc t = .outside ∧ s'.io = s.io ∧
      ((∃ event cb scheduler fiber, c = .addEvent event cb scheduler fiber) ∨
        (s.io.fdContexts[fd]?).isSome = true → On fd c (s'.pc t)) := by
  obtain ⟨-, hnext⟩ := Next.of_next hnext
  cases hnext with
  | found t fd c ctx hpc hctx =>
    exact ⟨hpc, rfl, fun _ => Or.inr ⟨ctx, move_pc_self⟩⟩
  | missing t fd event cb scheduler fiber hpc hctx =>
    exact ⟨hpc, rfl, fun _ => Or.inl move_pc_self⟩
  | refused t fd c hpc hctx hc =>
    refine ⟨hpc, rfl, ?_⟩
    rintro (⟨event, cb, scheduler, fiber, rfl⟩ | hslot)
    · exact (hc _ _ _ _ rfl).elim
    · rw [hctx] at hslot
      cases hslot

/-- A thread in `addEvent` stays in it when it resizes the table. -/
theorem On.of_grow {t : ℕ} {c : Call} (hon : On fd c (s.pc t))
    (hnext : s.next (.grow t) = some s') : On fd c (s'.pc t) := by
  obtain ⟨-, hnext⟩ := Next.of_next hnext
  cases hnext with
  | grown t fd' c' ctx hpc hctx =>
    rcases hon with hon | ⟨ctx', hon⟩
    · obtain ⟨rfl, rfl⟩ := Pc.growing.inj (hpc.symm.trans hon)
      exact Or.inr ⟨ctx, move_pc_self⟩
    · cases hpc.symm.trans hon
  | outOfBounds t fd' c' hpc hctx => exact hon

end System

end IOManager

/-! ### Threads -/

namespace Close

open IOManager (WaitsFor Bare)
open IOManager.System (On)

variable {c : Close} {fd : ℕ} {io io' : IOManager.System} {a : IOManager.Step}

theorem Foreign.effect (ha : Foreign fd io a = true) {t : ℕ} {fails : Bool} {ctx : ℕ}
    {call : IOManager.Call} (hcritical : a = .critical t fails)
    (hpc : io.pc t = .holding ctx fd call) : call.effect = .wakes := by
  subst hcritical
  simp only [Foreign, hpc] at ha
  cases call <;> simp [IOManager.Call.isCancelEvent] at ha
  rfl

/-- Other threads do not take the steps of a thread that is in `addEvent` or `cancelAll` on the
descriptor. -/
theorem Foreign.pc (ha : Foreign fd io a = true) {t : ℕ} {call : IOManager.Call}
    (hcall : call.isCancelEvent = false) (hon : On fd call (io.pc t))
    (hnext : io.next a = some io') : io'.pc t = io.pc t := by
  cases a with
  | call t' fd' c' =>
    exact IOManager.System.pc_next_of_busy hnext hon.busy (Or.inl ⟨t', fd', c', rfl⟩)
  | wait t' ready =>
    exact IOManager.System.pc_next_of_busy hnext hon.busy (Or.inr (Or.inl ⟨t', ready, rfl⟩))
  | handle t' fails =>
    exact IOManager.System.pc_next_of_busy hnext hon.busy (Or.inr (Or.inr ⟨t', fails, rfl⟩))
  | close fd' => exact IOManager.System.pc_next hnext (by simp [IOManager.Step.thread])
  | grow t' =>
    refine IOManager.System.pc_next hnext ?_
    rintro ⟨⟩
    obtain ⟨-, hnext⟩ := IOManager.System.Next.of_next hnext
    rcases hon with hon | ⟨ctx, hon⟩
    · simp [Foreign, hon] at ha
    · cases hnext with
      | grown t fd c ctx' hpc | outOfBounds t fd c hpc =>
        rw [hon] at hpc
        cases hpc
  | critical t' fails =>
    refine IOManager.System.pc_next hnext ?_
    rintro ⟨⟩
    obtain ⟨-, hnext⟩ := IOManager.System.Next.of_next hnext
    rcases hon with hon | ⟨ctx, hon⟩
    · cases hnext with
      | returned t ctx fd c fails b io hpc | asserted t ctx fd c fails a hpc =>
        rw [hon] at hpc
        cases hpc
    · simp [Foreign, hon, hcall] at ha

/-- Two calls are in two threads. -/
theorem pc_of_other_call {t t' : ℕ} {call call' : IOManager.Call} (hon : On fd call (io.pc t))
    (hon' : On fd call' (io.pc t')) (hne : call ≠ call') (hnext : io.next a = some io')
    (ha : a.thread = some t') : io'.pc t = io.pc t := by
  refine IOManager.System.pc_next hnext ?_
  rw [ha]
  rintro ⟨⟩
  exact hne (hon.inj hon')

theorem add_ne_add {i f f' : ℕ} {event event' : Event} (h : f' ≠ f) :
    add i f' event' ≠ add i f event := by
  intro heq
  exact h (IOManager.Call.addEvent.inj heq).2.2.2

/-! ### The invariant -/

/-- A fiber in `addEvent` has a thread that runs it; a parked fiber waits or has been resumed. -/
def ReaderInv (c : Close) (iom : ℕ → IOManager.System) (f : ℕ) : ReaderPc → Prop
  | .registering i event t => On c.fd (add i f event) ((iom i).pc t)
  | .parked i _ => WaitsFor c.fd (resume i f) (iom i).io
  | .outside | .calling .. | .adding .. => True

/-- After the sweep no context has an event of the descriptor. -/
def CloserInv (c : Close) (iom : ℕ → IOManager.System) : CloserPc → Prop
  | .start | .cancelling => True
  | .sweeping => ∀ i, c.iom = some i → On c.fd .cancelAll ((iom i).pc c.thread)
  | .deleting | .closing | .returned => ∀ i, Bare c.fd (iom i).io

structure Inv (c : Close) (s : System) : Prop where
  sound : ∀ i, (s.iom i).Sound
  readers : ∀ f, ReaderInv c s.iom f (s.reader f)
  closer : CloserInv c s.iom s.closer

variable {iom : ℕ → IOManager.System} {i f : ℕ} {s s' : System}

theorem ReaderInv.update {pc : ReaderPc} (h : ReaderInv c iom f pc)
    (htold : WaitsFor c.fd (resume i f) (iom i).io → WaitsFor c.fd (resume i f) io.io)
    (hthread : ∀ event t, pc = .registering i event t → On c.fd (add i f event) ((iom i).pc t) →
      io.pc t = (iom i).pc t) :
    ReaderInv c (Function.update iom i io) f pc := by
  cases pc with
  | outside | calling | adding => trivial
  | registering j event t =>
    have h : On c.fd (add j f event) ((iom j).pc t) := h
    show On c.fd (add j f event) ((Function.update iom i io j).pc t)
    by_cases hj : j = i
    · subst hj
      rw [Function.update_self, hthread event t rfl h]
      exact h
    · rwa [Function.update_of_ne hj]
  | parked j event =>
    show WaitsFor c.fd (resume j f) (Function.update iom i io j).io
    by_cases hj : j = i
    · subst hj
      rw [Function.update_self]
      exact htold h
    · rwa [Function.update_of_ne hj]

theorem CloserInv.update {pc : CloserPc} (h : CloserInv c iom pc)
    (hbare : pc = .deleting ∨ pc = .closing ∨ pc = .returned → Bare c.fd (iom i).io →
      Bare c.fd io.io)
    (hthread : On c.fd .cancelAll ((iom i).pc c.thread) → io.pc c.thread = (iom i).pc c.thread) :
    CloserInv c (Function.update iom i io) pc := by
  have hall (hpc : pc = .deleting ∨ pc = .closing ∨ pc = .returned)
      (h : ∀ j, Bare c.fd (iom j).io) (j : ℕ) : Bare c.fd (Function.update iom i io j).io := by
    by_cases hj : j = i
    · subst hj
      rw [Function.update_self]
      exact hbare hpc (h j)
    · rw [Function.update_of_ne hj]
      exact h j
  cases pc with
  | start | cancelling => trivial
  | sweeping =>
    intro j hj
    show On c.fd _ ((Function.update iom i io j).pc c.thread)
    by_cases hji : j = i
    · subst hji
      rw [Function.update_self, hthread (h j hj)]
      exact h j hj
    · rw [Function.update_of_ne hji]
      exact h j hj
  | deleting => exact hall (Or.inl rfl) h
  | closing => exact hall (Or.inr (Or.inl rfl)) h
  | returned => exact hall (Or.inr (Or.inr rfl)) h

theorem sound_update (h : ∀ i, (iom i).Sound) (hio : io.Sound) (j : ℕ) :
    (Function.update iom i io j).Sound := by
  by_cases hj : j = i
  · subst hj
    rwa [Function.update_self]
  · rw [Function.update_of_ne hj]
    exact h j

/-- A fiber moves, and one `IOManager` with it. -/
theorem Inv.step (h : Inv c s) {pc : ReaderPc} (hio : io.Sound)
    (hothers : ∀ f', f' ≠ f → ReaderInv c (Function.update s.iom i io) f' (s.reader f'))
    (hreader : ReaderInv c (Function.update s.iom i io) f pc)
    (hcloser : CloserInv c (Function.update s.iom i io) s.closer) :
    Inv c ((s.setIom i io).setReader f pc) := by
  refine ⟨sound_update h.sound hio, fun f' => ?_, hcloser⟩
  by_cases hf : f' = f
  · subst hf
    show ReaderInv c _ f' (Function.update s.reader f' pc f')
    rw [Function.update_self]
    exact hreader
  · show ReaderInv c _ f' (Function.update s.reader f pc f')
    rw [Function.update_of_ne hf]
    exact hothers f' hf

/-- A fiber moves on by itself. -/
theorem Inv.setReader (h : Inv c s) {pc : ReaderPc} (hpc : ReaderInv c s.iom f pc) :
    Inv c (s.setReader f pc) := by
  refine ⟨h.sound, fun f' => ?_, h.closer⟩
  by_cases hf : f' = f
  · subst hf
    show ReaderInv c _ f' (Function.update s.reader f' pc f')
    rwa [Function.update_self]
  · show ReaderInv c _ f' (Function.update s.reader f pc f')
    rw [Function.update_of_ne hf]
    exact h.readers f'

/-- `addEvent` of a fiber looks its context up. -/
theorem Inv.looked (h : Inv c s) {t : ℕ} {event : Event}
    (hnext : (s.iom i).next (.call t c.fd (add i f event)) = some io) :
    Inv c ((s.setIom i io).setReader f (.registering i event t)) := by
  obtain ⟨-, hio, hon⟩ := On.of_call hnext
  have hbusy {call : IOManager.Call} {t' : ℕ} (hon : On c.fd call ((s.iom i).pc t')) :
      io.pc t' = (s.iom i).pc t' :=
    IOManager.System.pc_next_of_busy hnext hon.busy (Or.inl ⟨_, _, _, rfl⟩)
  refine h.step ((h.sound i).next hnext) (fun f' _ => ?_) ?_ ?_
  · exact (h.readers f').update (by rw [hio]; exact id) fun _ _ _ hon => hbusy hon
  · show On c.fd _ ((Function.update s.iom i io i).pc t)
    rw [Function.update_self]
    exact hon (Or.inl ⟨_, _, _, _, rfl⟩)
  · exact h.closer.update (fun _ => by rw [hio]; exact id) hbusy

/-- `addEvent` of a fiber resizes the table. -/
theorem Inv.grown (h : Inv c s) {t : ℕ} {event : Event}
    (hreader : s.reader f = .registering i event t)
    (hnext : (s.iom i).next (.grow t) = some io) : Inv c (s.setIom i io) := by
  have hself := h.readers f
  rw [hreader] at hself
  have hon : On c.fd (add i f event) ((s.iom i).pc t) := hself
  refine ⟨sound_update h.sound ((h.sound i).next hnext), fun f' => ?_, ?_⟩
  · by_cases hf : f' = f
    · subst hf
      show ReaderInv c _ f' (s.reader f')
      rw [hreader]
      show On c.fd _ ((Function.update s.iom i io i).pc t)
      rw [Function.update_self]
      exact hon.of_grow hnext
    · exact (h.readers f').update
        (IOManager.System.waitsFor_next (h.sound i) hnext fun _ _ _ _ heq => by cases heq)
        fun _ _ _ hon' => pc_of_other_call hon' hon (add_ne_add hf) hnext rfl
  · exact h.closer.update
      (fun _ => IOManager.System.bare_next (h.sound i) hnext fun _ _ _ _ heq => by cases heq)
      fun hon' => pc_of_other_call hon' hon (by simp [add]) hnext rfl

/-- What has to hold for `close` to leave nothing behind: when `cancelAll` runs, the descriptor is
registered with the context it sweeps only, and the kernel lets it go; when `cancelAll` is
skipped or finds no context, it is not registered at all; and between the sweep and `close_f` the
kernel refuses its registration. -/
def Clear (c : Close) (s : System) : Step → Prop
  | .get => s.fds.get c.fd = .ok none ∨ c.iom = none → ∀ i, Bare c.fd (s.iom i).io
  | .find => ∀ i, c.iom = some i → (s.iom i).io.fdContexts[c.fd]? = none →
      ∀ j, Bare c.fd (s.iom j).io
  | .sweep fails => ∀ i ctx, c.iom = some i →
      (s.iom i).pc c.thread = .holding ctx c.fd .cancelAll →
      (∀ j, ∀ p < (s.iom j).io.created, ((s.iom j).io.mem p).fd = c.fd →
        (j = i ∧ p = ctx) ∨ ((s.iom j).io.mem p).events = .NONE) ∧
      (((s.iom i).io.mem ctx).events = .NONE ∨
        ((s.iom i).io.epoll.ctl .DEL c.fd .NONE ctx fails).1 = true)
  | .register f fails => s.closer = .deleting ∨ s.closer = .closing →
      ∀ i event t ctx, s.reader f = .registering i event t →
        (s.iom i).pc t = .holding ctx c.fd (add i f event) →
        (s.iom i).io.Refuses ctx c.fd event fails
  | _ => True

section

variable {iom io : IOManager.System} {t fd ctx : ℕ} {event : Event} {fails : Bool}

/-- Who runs under the mutex has found the context. -/
theorem holding_of_on {call : IOManager.Call} (hon : On fd call (iom.pc t))
    (hnext : iom.next (.critical t fails) = some io) : ∃ ctx, iom.pc t = .holding ctx fd call := by
  rcases hon with hgrowing | hholding
  · obtain ⟨-, hnext⟩ := IOManager.System.Next.of_next hnext
    cases hnext with
    | returned t ctx fd call fails b io hpc | asserted t ctx fd call fails e hpc =>
      rw [hgrowing] at hpc
      cases hpc
  · exact hholding

/-- The fiber that `addEvent` has registered waits. -/
theorem waitsFor_of_returns (hsound : iom.Sound)
    (hpc : iom.pc t = .holding ctx fd (add i f event))
    (hnext : iom.next (.critical t fails) = some io) (hreturns : iom.returns t fails = true) :
    WaitsFor fd (resume i f) io.io := by
  have hctx := hsound.pc t
  rw [hpc] at hctx
  obtain ⟨-, hnext⟩ := IOManager.System.Next.of_next hnext
  cases hnext with
  | returned t ctx' fd call fails b io hpc' hrun =>
    obtain ⟨rfl, rfl, rfl⟩ := IOManager.Pc.holding.inj (hpc.symm.trans hpc')
    simp only [IOManager.System.returns, hpc, hrun] at hreturns
    subst hreturns
    obtain ⟨-, hcreated, hfd⟩ := (IOManager.Call.run_commits hsound.io.consistent hrun).table
    refine Or.inr ⟨ctx, by rw [IOManager.System.move, hcreated]; exact hctx.1, event,
      (hfd ctx).trans hctx.2, IOManager.addEvent_test hrun, ?_⟩
    show resume i f ∈ ((io.mem ctx).getContext event).tasks
    rw [IOManager.addEvent_getContext hrun]
    exact List.mem_singleton_self _
  | asserted t ctx' fd call fails e hpc' hrun =>
    obtain ⟨rfl, rfl, rfl⟩ := IOManager.Pc.holding.inj (hpc.symm.trans hpc')
    simp only [IOManager.System.returns, hpc, hrun] at hreturns
    cases hreturns

/-- `addEvent` that is refused registers nothing. -/
theorem bare_of_refuses (hsound : iom.Sound) (hpc : iom.pc t = .holding ctx fd (add i f event))
    (hrefuses : iom.io.Refuses ctx fd event fails)
    (hnext : iom.next (.critical t fails) = some io) (hbare : Bare fd iom.io) :
    Bare fd io.io := by
  obtain ⟨-, hnext⟩ := IOManager.System.Next.of_next hnext
  cases hnext with
  | returned t ctx' fd call fails b io hpc' hrun =>
    obtain ⟨rfl, rfl, rfl⟩ := IOManager.Pc.holding.inj (hpc.symm.trans hpc')
    obtain rfl := IOManager.addEvent_of_refuses hrefuses hrun
    have hcommits := IOManager.Call.run_commits hsound.io.consistent hrun
    have hmem := hcommits.of_fails.1
    have hcreated := hcommits.table.2.1
    show Bare fd io
    rwa [Bare, hmem, hcreated]
  | asserted => exact hbare

end

/-- `addEvent` of a fiber runs under the mutex of the context. -/
theorem Inv.registered (h : Inv c s) {t : ℕ} {event : Event} {fails : Bool}
    (hreader : s.reader f = .registering i event t) (hok : Clear c s (.register f fails))
    (hclosed : s.closer = .returned → fails = true)
    (hnext : (s.iom i).next (.critical t fails) = some io) :
    Inv c ((s.setIom i io).setReader f
      (if (s.iom i).returns t fails then .parked i event else .outside)) := by
  have hself := h.readers f
  rw [hreader] at hself
  have hon : On c.fd (add i f event) ((s.iom i).pc t) := hself
  obtain ⟨ctx, hpc⟩ := holding_of_on hon hnext
  have hother {f' t' : ℕ} {event' : Event} (hf : f' ≠ f)
      (hon' : On c.fd (add i f' event') ((s.iom i).pc t')) : io.pc t' = (s.iom i).pc t' :=
    pc_of_other_call hon' hon (add_ne_add hf) hnext rfl
  have htold (f' : ℕ) : WaitsFor c.fd (resume i f') (s.iom i).io →
      WaitsFor c.fd (resume i f') io.io := by
    refine IOManager.System.waitsFor_next (h.sound i) hnext fun t' fails' ctx' call heq hpc' => ?_
    obtain ⟨rfl, rfl⟩ := IOManager.Step.critical.inj heq
    obtain ⟨-, -, rfl⟩ := IOManager.Pc.holding.inj (hpc.symm.trans hpc')
    simp [add, IOManager.Call.effect]
  have hbare (hswept : s.closer = .deleting ∨ s.closer = .closing ∨ s.closer = .returned) :
      Bare c.fd (s.iom i).io → Bare c.fd io.io := by
    refine bare_of_refuses (h.sound i) hpc ?_ hnext
    rcases hswept with hswept | hswept | hswept
    · exact hok (Or.inl hswept) i event t ctx hreader hpc
    · exact hok (Or.inr hswept) i event t ctx hreader hpc
    · rw [hclosed hswept]
      rfl
  refine h.step ((h.sound i).next hnext) (fun f' hf => ?_) ?_ ?_
  · exact (h.readers f').update (htold f') fun _ _ _ hon' => hother hf hon'
  · cases hreturns : (s.iom i).returns t fails
    · trivial
    · show WaitsFor c.fd (resume i f) (Function.update s.iom i io i).io
      rw [Function.update_self]
      exact waitsFor_of_returns (h.sound i) hpc hnext hreturns
  · exact h.closer.update hbare
      fun hon' => pc_of_other_call hon' hon (by simp [add]) hnext rfl

/-- A worker resumes a fiber; the others are not affected. -/
theorem Inv.woken (h : Inv c s) {event : Event} {pc : ReaderPc}
    (hpc : pc = .outside ∨ pc = .calling i event) :
    Inv c ((s.setIom i ((s.iom i).take (resume i f))).setReader f pc) := by
  have hsound := h.sound i
  refine h.step ⟨⟨hsound.io.consistent, hsound.io.slot, hsound.io.ptr, hsound.io.count⟩,
    hsound.pc⟩ (fun f' hf => ?_) ?_ ?_
  · refine (h.readers f').update (fun htold => ?_) fun _ _ _ _ => rfl
    have hne : resume i f' ≠ resume i f := by
      intro heq
      exact hf (Option.some.inj (Task.mk.inj heq).2.1)
    rcases htold with hmem | hwaits
    · exact Or.inl ((List.mem_erase_of_ne hne).mpr hmem)
    · exact Or.inr hwaits
  · rcases hpc with rfl | rfl <;> trivial
  · exact h.closer.update (fun _ => id) fun _ => rfl

/-- `cancelAll` looks its context up. -/
theorem Inv.found (h : Inv c s) (hiom : c.iom = some i) (hok : Clear c s .find)
    (hnext : (s.iom i).next (.call c.thread c.fd .cancelAll) = some io) :
    Inv c { s.setIom i io with
      closer := if ((s.iom i).io.fdContexts[c.fd]?).isSome then .sweeping else .deleting } := by
  obtain ⟨-, hio, hon⟩ := On.of_call hnext
  refine ⟨sound_update h.sound ((h.sound i).next hnext), fun f' => ?_, ?_⟩
  · refine (h.readers f').update (by rw [hio]; exact id) fun _ _ _ hon' => ?_
    exact IOManager.System.pc_next_of_busy hnext hon'.busy (Or.inl ⟨_, _, _, rfl⟩)
  · show CloserInv c (Function.update s.iom i io) _
    split_ifs with hslot
    · intro j hj
      obtain rfl := Option.some.inj (hiom.symm.trans hj)
      rw [Function.update_self]
      exact hon (Or.inr hslot)
    · intro j
      have hbare := hok i hiom (Option.not_isSome_iff_eq_none.mp hslot) j
      by_cases hj : j = i
      · subst hj
        rwa [Function.update_self, hio]
      · rwa [Function.update_of_ne hj]

/-- `cancelAll` runs under the mutex of the context. -/
theorem Inv.swept (h : Inv c s) {fails : Bool} (hcloser : s.closer = .sweeping)
    (hiom : c.iom = some i) (hok : Clear c s (.sweep fails))
    (hnext : (s.iom i).next (.critical c.thread fails) = some io) :
    Inv c { s.setIom i io with closer := .deleting } := by
  have hon := h.closer
  rw [hcloser] at hon
  have hon : On c.fd .cancelAll ((s.iom i).pc c.thread) := hon i hiom
  have hthread {t : ℕ} {event : Event} {f : ℕ}
      (hon' : On c.fd (add i f event) ((s.iom i).pc t)) : io.pc t = (s.iom i).pc t :=
    pc_of_other_call hon' hon (by simp [add]) hnext rfl
  have hsound := (h.sound i).next hnext
  have htold (f : ℕ) : WaitsFor c.fd (resume i f) (s.iom i).io →
      WaitsFor c.fd (resume i f) io.io := by
    refine IOManager.System.waitsFor_next (h.sound i) hnext fun t' fails' ctx' call heq hpc' => ?_
    obtain ⟨rfl, rfl⟩ := IOManager.Step.critical.inj heq
    obtain rfl := hon.inj (Or.inr ⟨ctx', hpc'⟩)
    simp [IOManager.Call.effect]
  have hbare (j : ℕ) : Bare c.fd (Function.update s.iom i io j).io := by
    obtain ⟨-, hnext⟩ := IOManager.System.Next.of_next hnext
    cases hnext with
    | returned t ctx fd call fails b io hpc hrun =>
      obtain ⟨rfl, rfl⟩ : fd = c.fd ∧ call = .cancelAll := by
        rcases hon with hon | ⟨ctx', hon⟩
        · cases hon.symm.trans hpc
        · obtain ⟨-, rfl, rfl⟩ := IOManager.Pc.holding.inj (hon.symm.trans hpc)
          exact ⟨rfl, rfl⟩
      obtain ⟨hothers, hctl⟩ := hok i ctx hiom hpc
      intro p hp hfd
      by_cases hj : j = i
      · subst hj
        rw [Function.update_self] at hp hfd ⊢
        have hp : p < io.created := hp
        have hfd : (io.mem p).fd = c.fd := hfd
        show (io.mem p).events = .NONE
        have hconsistent := (h.sound j).io.consistent
        have hcommits := IOManager.Call.run_commits hconsistent hrun
        obtain ⟨-, hcreated, hsame⟩ := hcommits.table
        rw [hcreated] at hp
        rw [hsame] at hfd
        by_cases hpc' : p = ctx
        · subst hpc'
          exact IOManager.cancelAll_events (hconsistent p) hctl hrun
        · have hnone := (hothers j p hp hfd).resolve_left fun heq => hpc' heq.2
          obtain ⟨-, -, ⟨hmem, -⟩ | ⟨c', tasks, -, hmem, -⟩⟩ := hcommits.writes
          · rwa [hmem]
          · rwa [hmem, Function.update_of_ne hpc']
      · rw [Function.update_of_ne hj] at hp hfd ⊢
        exact (hothers j p hp hfd).resolve_left fun heq => hj heq.1
    | asserted t ctx fd call fails e hpc hrun =>
      obtain rfl := hon.inj (Or.inr ⟨ctx, by
        rcases hon with hon | ⟨ctx', hon⟩
        · cases hon.symm.trans hpc
        · obtain ⟨-, rfl, -⟩ := IOManager.Pc.holding.inj (hon.symm.trans hpc)
          exact hpc⟩)
      obtain ⟨b, io, hok, -⟩ := IOManager.cancelAll_commits ((h.sound i).io.consistent ctx)
      cases hok.symm.trans hrun
  exact ⟨sound_update h.sound hsound,
    fun f => (h.readers f).update (htold f) fun _ _ _ hon' => hthread hon', hbare⟩

/-- Another thread takes a step. -/
theorem Inv.others (h : Inv c s) (ha : Foreign c.fd (s.iom i) a = true)
    (hnext : (s.iom i).next a = some io) : Inv c (s.setIom i io) := by
  refine ⟨sound_update h.sound ((h.sound i).next hnext), fun f => ?_, ?_⟩
  · refine (h.readers f).update ?_ fun _ _ _ hon => Foreign.pc ha rfl hon hnext
    refine IOManager.System.waitsFor_next (h.sound i) hnext fun t fails ctx call heq hpc => ?_
    rw [Foreign.effect ha heq hpc]
    simp
  · refine h.closer.update (fun _ => ?_) fun hon => Foreign.pc ha rfl hon hnext
    refine IOManager.System.bare_next (h.sound i) hnext fun t fails ctx call heq hpc => ?_
    rw [Foreign.effect ha heq hpc]
    simp

/-- `close_f` takes the registrations away from the kernel. -/
theorem Inv.closed (h : Inv c s) (hcloser : s.closer = .closing) :
    Inv c { s with
      iom := fun i => { s.iom i with io := (s.iom i).io.forget c.fd }
      closer := .returned } := by
  refine ⟨fun i => ⟨(h.sound i).io.forget c.fd, (h.sound i).pc⟩, fun f => ?_, ?_⟩
  · have hreader := h.readers f
    show ReaderInv c _ f (s.reader f)
    cases hpc : s.reader f <;> rw [hpc] at hreader <;> exact hreader
  · have hbare := h.closer
    rwa [hcloser] at hbare

/-- **Step lemma.** -/
theorem Inv.next {a : Step} (h : Inv c s) (hok : Clear c s a) (hnext : s.next c a = some s') :
    Inv c s' := by
  replace hnext := System.Next.of_next hnext
  cases hnext with
  | stopped a e => exact ⟨h.sound, h.readers, h.closer⟩
  | idle f i event => exact h
  | entered f i event hreader => exact h.setReader trivial
  | called f i event r pc hreader hpc =>
    refine h.setReader ?_
    rcases hpc with rfl | rfl | rfl <;> trivial
  | looked f i t event io hreader hnext => exact h.looked hnext
  | grown f i t event io hreader hnext => exact h.grown hreader hnext
  | registered f i t event fails io hreader hclosed hnext =>
    exact h.registered hreader hok hclosed hnext
  | woken f i event timeout pc hreader hpc hmem => exact h.woken hpc
  | got pc hcloser hpc =>
    refine ⟨h.sound, h.readers, ?_⟩
    rcases hpc with rfl | ⟨hskip, rfl | rfl⟩
    · trivial
    · exact hok hskip
    · exact hok hskip
  | found i io hcloser hiom hnext => exact h.found hiom hok hnext
  | swept i fails io hcloser hiom hnext => exact h.swept hcloser hiom hok hnext
  | deleted fds hcloser =>
    have hbare := h.closer
    rw [hcloser] at hbare
    exact ⟨h.sound, h.readers, hbare⟩
  | closed hcloser => exact h.closed hcloser
  | others i a io ha hnext => exact h.others ha hnext

theorem inv_init (fds : FdManager) : Inv c (System.init fds) :=
  ⟨fun _ => IOManager.System.sound_init, fun _ => trivial, trivial⟩

/-! ### Runs -/

namespace System

/-- **`close` leaves nothing behind** in a run in which `cancelAll` reaches every registration of
the descriptor and none is made after it: when `close` has returned, no context of any `IOManager`
has an event of the descriptor or anybody waiting for one, every fiber that was parked on it has
been resumed, and the counters count the events of other descriptors only. -/
theorem close_of_run {fds : FdManager} {as : List Step}
    (hclear : Transition.StepsMeet (next c) (Clear c) (init fds) as)
    (hrun : Transition.run (next c) (init fds) as = some s) (hreturned : s.closer = .returned) :
    (∀ i, ∀ p < (s.iom i).io.created, ((s.iom i).io.mem p).fd = c.fd →
      ((s.iom i).io.mem p).events = .NONE ∧ ∀ e, ((s.iom i).io.mem p).getContext e = .empty) ∧
    (∀ f i event, s.reader f = .parked i event → resume i f ∈ (s.iom i).io.scheduled) ∧
    ∀ i, (s.iom i).io.pendingEventCount =
      ∑ p ∈ (Finset.range (s.iom i).io.created).filter (fun p => ((s.iom i).io.mem p).fd ≠ c.fd),
        ((s.iom i).io.mem p).events.count := by
  have hinv : Inv c s := Transition.invariant_of_stepsMeet (Inv c)
    (fun _ _ _ h hok hnext => h.next hok hnext) (inv_init fds) hclear hrun
  have hbare : ∀ i, Bare c.fd (s.iom i).io := by
    have hcloser := hinv.closer
    rwa [hreturned] at hcloser
  refine ⟨fun i p hp hfd => ⟨hbare i p hp hfd, fun e => ?_⟩, fun f i event hreader => ?_,
    fun i => ?_⟩
  · have hcons := (hinv.sound i).io.consistent p e
    rw [hbare i p hp hfd] at hcons
    cases e <;> exact hcons
  · have hwaits := hinv.readers f
    rw [hreader] at hwaits
    exact WaitsFor.scheduled hwaits (hbare i)
  · rw [(hinv.sound i).io.count, IOManager.eventCount]
    refine (Finset.sum_filter_of_ne ?_).symm
    intro p hp hcount hfd
    apply hcount
    rw [hbare i p (Finset.mem_range.mp hp) hfd]
    rfl

/-- The descriptor 5 is a hooked socket, and a thread of `IOManager` 0 closes it. -/
def closeFive : Close := ⟨5, 1, some 0⟩

/-- An `FdManager` that knows descriptor 5. -/
def sockets : FdManager :=
  ⟨(List.replicate 64 none).set 5 (some (.init (some true)))⟩

/-- A reader has seen `EAGAIN`, but its `addEvent` comes after `cancelAll`. -/
def registersLate : List Step :=
  [.enter 7 0 .READ, .call 7 .EAGAIN, .get, .find, .sweep false, .look 7 2, .register 7 false,
    .del, .close]

/-- When `close` has returned, the event of the closed descriptor is still registered and counted,
and the fiber is left parked. -/
theorem close_registersLate :
    ∃ s, Transition.run (next closeFive) (init sockets) registersLate = some s ∧
      s.closer = .returned ∧ ((s.iom 0).io.mem 5).fd = 5 ∧
      ((s.iom 0).io.mem 5).events = ⟨true, false⟩ ∧ (s.iom 0).io.pendingEventCount = 1 ∧
      s.reader 7 = .parked 0 .READ ∧ resume 0 7 ∉ (s.iom 0).io.scheduled :=
  ⟨_, rfl, rfl, rfl, rfl, rfl, rfl, List.not_mem_nil⟩

theorem new_events (p : ℕ) : (IOManager.System.init.io.mem p).events = .NONE := by
  obtain ⟨fd, hnew⟩ := IOManager.new_mem p
  exact congrArg FdContext.events hnew

/-- A reader that parks before `cancelAll`. -/
def registersEarly : List Step :=
  [.enter 7 0 .READ, .call 7 .EAGAIN, .look 7 2, .register 7 false, .get, .find, .sweep false,
    .del, .close]

theorem close_of_run_registersEarly :
    ∃ s, Transition.run (next closeFive) (init sockets) registersEarly = some s ∧
      (s.iom 0).io.pendingEventCount =
        ∑ p ∈ (Finset.range (s.iom 0).io.created).filter
          (fun p => ((s.iom 0).io.mem p).fd ≠ closeFive.fd), ((s.iom 0).io.mem p).events.count := by
  refine ⟨_, rfl, (@close_of_run closeFive _ sockets registersEarly ?_ rfl rfl).2.2 0⟩
  refine .cons rfl trivial (.cons rfl trivial (.cons rfl trivial (.cons rfl ?_ (.cons rfl ?_
    (.cons rfl ?_ (.cons rfl ?_ (.cons rfl trivial (.cons rfl trivial trivial))))))))
  · rintro (hcloser | hcloser) <;> cases hcloser
  · rintro (hget | hiom)
    · cases hget
    · cases hiom
  · rintro _ ⟨⟩ hslot
    cases hslot
  · rintro _ ctx ⟨⟩ hpc
    obtain rfl : ctx = 5 := (IOManager.Pc.holding.inj hpc).1.symm
    refine ⟨fun j p hp hfd => ?_, Or.inr rfl⟩
    by_cases hj : j = 0
    · subst hj
      by_cases hp5 : p = 5
      · exact Or.inl ⟨rfl, hp5⟩
      · -- the other contexts are new
        refine Or.inr ?_
        show (Function.update IOManager.System.init.io.mem 5 _ p).events = .NONE
        rw [Function.update_of_ne hp5]
        exact new_events p
    · refine Or.inr ?_
      show ((Function.update (Function.update (Function.update
        (fun _ => IOManager.System.init) 0 _) 0 _) 0 _ j).io.mem p).events = .NONE
      rw [Function.update_of_ne hj, Function.update_of_ne hj, Function.update_of_ne hj]
      exact new_events p

end System

end Close

end Muhui
