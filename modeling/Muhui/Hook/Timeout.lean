/-
  No timeout of a hooked wait is lost, unless it comes before the wait.

  The callback of the condition timer cancels the event once and for all: it sets `cancelled`,
  and every later callback gives up on seeing it.  So a callback that has run before `addEvent`
  leaves the fiber without a timeout.  `timeout_of_run` says that this is the only way to lose one
  (besides an `epoll_ctl` that fails in `cancelEvent`).
-/
import Muhui.Hook.Waiter

namespace Muhui.DoIo

open IOManager.System (Next)
open ConditionTimer

variable {P : Type*}

/-- In `YieldToHold` or on the way there. -/
def Pc.waits : Pc P → Bool
  | added _ | parked _ => true
  | _ => false

/-- The timer at `p` is one of the call's, and nobody has cancelled it. -/
def Live (timers : TimerManager.System P (Callback Unit)) (p : P) : Prop :=
  timers.added p = some (.condition ()) ∧ (p, .cancelled) ∉ timers.log

/-- The timer of the current round is live as long as `do_io` counts on it. -/
def PcLive (timers : TimerManager.System P (Callback Unit)) : Pc P → Prop
  | .adding p | .registering p _ | .added p | .parked p => Live timers p
  | _ => True

/-- What the thread does that runs `addEvent` for `do_io`. -/
def AddThread (d : DoIo) (io : IOManager.System) : Pc P → Prop
  | .registering _ t =>
    io.pc t = .holding d.fd d.fd d.add ∨
      (io.pc t = .growing d.fd d.add ∧ io.io.fdContexts.length ≤ d.fd)
  | _ => True

/-- What the thread does that runs `cancelEvent` for a callback. -/
def CancelThread (d : DoIo) (io : IOManager.System) : CallbackPc ℕ → Prop
  | .removing t => io.pc t = .holding d.fd d.fd (.cancelEvent d.event)
  | _ => True

variable [LinearOrder P]

/-- The timers of the call are one-shot, and its callbacks are the ones that were handed out. -/
structure TimerInv (timers : TimerManager.System P (Callback Unit))
    (callback : P → CallbackPc ℕ) : Prop where
  lives : timers.Inv
  own : ∀ q, timers.added q = some (.condition ()) → (q, .added false) ∈ timers.log
  handed : ∀ q, callback q ≠ .armed ↔ (q, .handed (some (.condition ()))) ∈ timers.log

structure Inv (d : DoIo) (s : System P) : Prop where
  timers : TimerInv s.timers s.callback
  live : PcLive s.timers s.pc
  base : d.Base s.io
  tokens : d.tokens s.io.io = if s.pc.waits then 1 else 0
  adds : AddThread d s.io s.pc
  cancels : ∀ q, CancelThread d s.io (s.callback q)
  apart : ∀ q q' t, s.callback q = .removing t → s.callback q' = .removing t → q = q'
  past : ∀ q, (s.callback q).past → s.cancelled = true ∨ s.pc = .returned
  lost : d.Registered s.io.io → s.cancelled = true → ∃ q, (s.callback q).cancels

/-! ### Timers -/

variable {d : DoIo} {s s' : System P} {timers timers' : TimerManager.System P (Callback Unit)}
  {callback : P → CallbackPc ℕ}

/-- A callback that has been handed out moves on. -/
theorem TimerInv.update (h : TimerInv timers callback) {q : P} {pc : CallbackPc ℕ}
    (hq : callback q ≠ .armed) (hpc : pc ≠ .armed) :
    TimerInv timers (Function.update callback q pc) := by
  refine ⟨h.lives, h.own, fun q' => ?_⟩
  by_cases hqq' : q' = q
  · subst hqq'
    rw [Function.update_self, ← h.handed q']
    exact iff_of_true hpc hq
  · rw [Function.update_of_ne hqq', h.handed q']

/-- A step of the timers that hands nothing out. -/
theorem TimerInv.next (h : TimerInv timers callback) {a : TimerManager.Step P (Callback Unit)}
    (hnext : timers.next a = some timers') (ha : ∀ now probe, a ≠ .listTake now probe)
    (hadd : ∀ q ms recurring now, a = .addTimer q ms (.condition ()) recurring now →
      recurring = false) : TimerInv timers' callback := by
  obtain ⟨delta, hlog, -, hhanded⟩ := TimerManager.System.log_next hnext
  refine ⟨h.lives.next hnext, fun q hq => ?_, fun q => ?_⟩
  · rcases TimerManager.System.added_next hnext (q := q) with
      hsame | ⟨ms, cb, r, now, rfl, -, hcb, hlog'⟩
    · rw [hlog]
      exact List.mem_append_left _ (h.own q (hsame ▸ hq))
    · obtain rfl := Option.some.inj (hcb.symm.trans hq)
      obtain rfl := hadd q ms r now rfl
      rw [hlog']
      simp
  · rw [h.handed q, hlog, List.mem_append]
    refine (or_iff_left fun hq => ?_).symm
    obtain ⟨now, probe, rfl⟩ := hhanded q _ hq
    exact ha now probe rfl

theorem Live.next {p : P} (h : Live timers p) {a : TimerManager.Step P (Callback Unit)}
    (hnext : timers.next a = some timers') (ha : a ≠ .cancel p) : Live timers' p := by
  obtain ⟨delta, hlog, hcancelled, -⟩ := TimerManager.System.log_next hnext
  refine ⟨?_, fun hp => ?_⟩
  · rcases TimerManager.System.added_next hnext (q := p) with
      hsame | ⟨ms, cb, r, now, -, hnone, -⟩
    · rw [hsame, h.1]
    · rw [h.1] at hnone
      cases hnone
  · rw [hlog, List.mem_append] at hp
    rcases hp with hp | hp
    · exact h.2 hp
    · exact ha (hcancelled p hp)

/-- A timer of the call that is still in use is in the set until its callback is handed out. -/
theorem TimerInv.mem_timer (h : TimerInv timers callback) {p : P} (hlive : Live timers p)
    (hp : callback p = .armed) : p ∈ timers.tm.timer := by
  have hadded : (timers.added p).isSome := by rw [hlive.1]; rfl
  rcases h.lives.exactlyOne hadded with ⟨hmem, -, -⟩ | ⟨-, ⟨-, cb, hcb⟩, -⟩ | ⟨-, -, hcancelled⟩
  · exact hmem
  · have hcond := (h.lives.handed p cb hcb).1
    rw [hlive.1] at hcond
    subst hcond
    exact absurd hp ((h.handed p).mpr hcb)
  · exact absurd hcancelled hlive.2

/-- A step that somebody else takes hands callbacks out at most once. -/
theorem TimerInv.foreign (h : TimerInv timers callback) {a : TimerManager.Step P (Callback Unit)}
    (ha : ForeignTimer timers.added a = true) (hnext : timers.next a = some timers') :
    TimerInv timers' (handOut (timers'.log.drop timers.log.length) callback) ∧
      ∀ q, handOut (timers'.log.drop timers.log.length) callback q = callback q ∨
        (callback q = .armed ∧
          handOut (timers'.log.drop timers.log.length) callback q = .queued) := by
  obtain ⟨delta, hlog, -, -⟩ := TimerManager.System.log_next hnext
  have hlives := h.lives.next hnext
  have hdrop : timers'.log.drop timers.log.length = delta := by rw [hlog, List.drop_left]
  have hown (q : P) (hq : timers'.added q = some (.condition ())) :
      (q, .added false) ∈ timers'.log := by
    rcases TimerManager.System.added_next hnext (q := q) with
      hsame | ⟨ms, cb, r, now, rfl, -, hcb, -⟩
    · rw [hlog]
      exact List.mem_append_left _ (h.own q (hsame ▸ hq))
    · -- nobody else adds a timer with the callback of the call
      obtain rfl := Option.some.inj (hcb.symm.trans hq)
      simp [ForeignTimer, Callback.isCondition] at ha
  rw [hdrop]
  refine ⟨⟨hlives, hown, fun q => ?_⟩, fun q => ?_⟩
  · rw [hlog, List.mem_append, ← h.handed q]
    by_cases hq : (q, .handed (some (.condition ()))) ∈ delta
    · rw [handOut_of_mem hq]
      exact iff_of_true (by simp) (Or.inr hq)
    · rw [handOut_of_notMem fun _ => hq]
      exact (or_iff_left hq).symm
  · by_cases hnew : (q, .handed (some (.condition ()))) ∈ delta
    swap
    · exact Or.inl (handOut_of_notMem fun _ => hnew)
    refine Or.inr ⟨?_, handOut_of_mem hnew⟩
    by_contra hq
    have hold := (h.handed q).mp hq
    have hcond := (h.lives.handed q _ hold).1
    have hmem : (q, .added false) ∈ timers'.log := by
      rw [hlog]
      exact List.mem_append_left _ (h.own q hcond.symm)
    exact hlives.not_handed_again hmem hlog hold hnew

/-! ### Threads -/

variable {io io' : IOManager.System} {a : IOManager.Step}

omit [LinearOrder P] in
/-- Steps of event loops and lookups of other threads leave the two threads of the call alone. -/
theorem AddThread.idle {pc : Pc P} (h : AddThread d io pc) (hbase : d.Base io)
    (hnext : io.next a = some io')
    (ha : (∃ t fd c, a = .call t fd c) ∨ (∃ t ready, a = .wait t ready) ∨
      ∃ t fails, a = .handle t fails) : AddThread d io' pc := by
  have htable : io'.io.fdContexts = io.io.fdContexts := by
    refine IOManager.System.fdContexts_next hbase.book.table.consistent hnext fun t ht => ?_
    subst ht
    simp at ha
  cases pc with
  | registering p t =>
    rcases h with h | ⟨h, hle⟩
    · refine Or.inl ?_
      rw [IOManager.System.pc_next_of_busy hnext (by rw [h]; rfl) ha, h]
    · refine Or.inr ⟨?_, by rw [htable]; exact hle⟩
      rw [IOManager.System.pc_next_of_busy hnext (by rw [h]; rfl) ha, h]
  | calling | arming | adding | failed | added | parked | woken | checking | returned => trivial

theorem CancelThread.idle {pc : CallbackPc ℕ} (h : CancelThread d io pc)
    (hnext : io.next a = some io')
    (ha : (∃ t fd c, a = .call t fd c) ∨ (∃ t ready, a = .wait t ready) ∨
      ∃ t fails, a = .handle t fails) : CancelThread d io' pc := by
  cases pc with
  | removing t =>
    have h : io.pc t = _ := h
    show io'.pc t = _
    rw [IOManager.System.pc_next_of_busy hnext (by rw [h]; rfl) ha, h]
  | armed | queued | passed | cancelling | finished => trivial

/-- A step of a thread that runs something else leaves the thread of a callback alone. -/
theorem CancelThread.other {pc : CallbackPc ℕ} (h : CancelThread d io pc)
    (hnext : io.next a = some io') {t : ℕ} (ht : a.thread = some t)
    (hpc : io.pc t ≠ .holding d.fd d.fd (.cancelEvent d.event)) : CancelThread d io' pc := by
  cases pc with
  | removing t' =>
    have h : io.pc t' = _ := h
    show io'.pc t' = _
    rw [IOManager.System.pc_next hnext, h]
    rw [ht]
    rintro ⟨⟩
    exact hpc h
  | armed | queued | passed | cancelling | finished => trivial

omit [LinearOrder P] in
/-- So does it the thread that runs `addEvent`. -/
theorem AddThread.other {pc : Pc P} (h : AddThread d io pc) (hbase : d.Base io) {t : ℕ}
    {fails : Bool} (hnext : io.next (.critical t fails) = some io')
    (hpc : io.pc t = .holding d.fd d.fd (.cancelEvent d.event)) : AddThread d io' pc := by
  have htable := IOManager.System.fdContexts_next hbase.book.table.consistent hnext (by simp)
  cases pc with
  | registering p t' =>
    have hne : t' ≠ t := by
      rintro rfl
      rcases h with h | ⟨h, -⟩ <;> rw [h] at hpc <;> cases hpc
    have hsame : io'.pc t' = io.pc t' :=
      IOManager.System.pc_next hnext fun ht => hne (Option.some.inj ht).symm
    rcases h with h | ⟨h, hle⟩
    · exact Or.inl (hsame.trans h)
    · exact Or.inr ⟨hsame.trans h, by rw [htable]; exact hle⟩
  | calling | arming | adding | failed | added | parked | woken | checking | returned => trivial

/-! ### Steps -/

/-- `do_io` moves on by itself. -/
theorem Inv.move (h : Inv d s) {pc : Pc P} (hlive : PcLive s.timers pc)
    (hwaits : pc.waits = s.pc.waits) (hadds : AddThread d s.io pc)
    (hreturned : s.pc = .returned → pc = .returned) : Inv d { s with pc := pc } :=
  { h with
    live := hlive
    tokens := by
      rw [hwaits]
      exact h.tokens
    adds := hadds
    past := fun q hq => (h.past q hq).imp_right hreturned }

/-- A lookup or an event loop. -/
theorem Inv.idle (h : Inv d s) (hnext : s.io.next a = some io)
    (ha : (∃ t fd c, a = .call t fd c) ∨ (∃ t ready, a = .wait t ready) ∨
      ∃ t fails, a = .handle t fails) : Inv d { s with io := io } := by
  have hcalm : d.Calm s.io io := by
    refine h.base.calm ?_ hnext
    rcases ha with ⟨t, fd, c, rfl⟩ | ⟨t, ready, rfl⟩ | ⟨t, fails, rfl⟩ <;> trivial
  exact { h with
    base := hcalm.base
    tokens := hcalm.tokens.trans h.tokens
    adds := h.adds.idle h.base hnext ha
    cancels := fun q => (h.cancels q).idle hnext ha
    lost := fun hreg => h.lost (hcalm.registered hreg) }

/-- A callback that has been handed out moves on, and the `IOManager` with it. -/
theorem Inv.advanceIO (h : Inv d s) {q : P} (hq : s.callback q ≠ .armed) {pc : CallbackPc ℕ}
    (hpc : pc ≠ .armed) {b : Bool} (hb : s.cancelled = true → b = true) (hbase : d.Base io)
    (htokens : d.tokens io.io = d.tokens s.io.io) (hadds : AddThread d io s.pc)
    (hothers : ∀ q', q' ≠ q → CancelThread d io (s.callback q')) (hthread : CancelThread d io pc)
    (hapart : ∀ t, pc = .removing t → ∀ q', s.callback q' ≠ .removing t)
    (hpast : pc.past → b = true ∨ s.pc = .returned)
    (hlost : d.Registered io.io → b = true →
      pc.cancels ∨ ∃ q', q' ≠ q ∧ (s.callback q').cancels) :
    Inv d { s with io := io, cancelled := b, callback := Function.update s.callback q pc } := by
  have hupdate (q' : P) : (q' = q ∧ Function.update s.callback q pc q' = pc) ∨
      (q' ≠ q ∧ Function.update s.callback q pc q' = s.callback q') := by
    by_cases hqq' : q' = q
    · subst hqq'
      exact Or.inl ⟨rfl, Function.update_self _ _ _⟩
    · exact Or.inr ⟨hqq', Function.update_of_ne hqq' _ _⟩
  refine { h with
    timers := h.timers.update hq hpc
    base := hbase
    tokens := htokens.trans h.tokens
    adds := hadds
    cancels := fun q' => ?_
    apart := fun q₁ q₂ t h₁ h₂ => ?_
    past := fun q' hq' => ?_
    lost := fun hreg hb' => ?_ }
  · rcases hupdate q' with ⟨-, heq⟩ | ⟨hne, heq⟩ <;> simp only [heq]
    · exact hthread
    · exact hothers q' hne
  · rcases hupdate q₁ with ⟨rfl, heq₁⟩ | ⟨-, heq₁⟩ <;>
      rcases hupdate q₂ with ⟨rfl, heq₂⟩ | ⟨-, heq₂⟩ <;> simp only [heq₁, heq₂] at h₁ h₂
    · rfl
    · exact absurd h₂ (hapart t h₁ q₂)
    · exact absurd h₁ (hapart t h₂ q₁)
    · exact h.apart q₁ q₂ t h₁ h₂
  · rcases hupdate q' with ⟨-, heq⟩ | ⟨-, heq⟩ <;> simp only [heq] at hq'
    · exact hpast hq'
    · exact (h.past q' hq').imp_left hb
  · rcases hlost hreg hb' with hcancels | ⟨q', hne, hcancels⟩
    · exact ⟨q, by simpa using hcancels⟩
    · exact ⟨q', by simpa [Function.update_of_ne hne] using hcancels⟩

/-- A callback that has been handed out moves on. -/
theorem Inv.advance (h : Inv d s) {q : P} (hq : s.callback q ≠ .armed) {pc : CallbackPc ℕ}
    (hpc : pc ≠ .armed) {b : Bool} (hb : s.cancelled = true → b = true)
    (hthread : CancelThread d s.io pc)
    (hapart : ∀ t, pc = .removing t → ∀ q', s.callback q' ≠ .removing t)
    (hpast : pc.past → b = true ∨ s.pc = .returned)
    (hlost : d.Registered s.io.io → b = true →
      pc.cancels ∨ ∃ q', q' ≠ q ∧ (s.callback q').cancels) :
    Inv d { s with cancelled := b, callback := Function.update s.callback q pc } :=
  h.advanceIO hq hpc hb h.base rfl h.adds (fun q' _ => h.cancels q') hthread hapart hpast hlost

/-- A callback that sets `cancelled` before `addEvent` registers the event has yet to get to its
`cancelEvent`, and the kernel does not fail that of a registered event. -/
def Timely (d : DoIo) (s : System P) : Step P → Prop
  | .register fails =>
    fails = true ∨ s.cancelled = false ∨ ∃ q, (s.callback q).cancels
  | .cancel _ fails => d.Registered s.io.io → fails = false
  | _ => True

theorem Inv.armed (h : Inv d s) {p : P} {now : ℕ} (hpc : s.pc = .arming)
    (hnext : s.timers.next (.addTimer p d.timeout (.condition ()) false now) = some timers) :
    Inv d { s with timers := timers, pc := .adding p } := by
  obtain ⟨hnone, hadded, hlog⟩ := TimerManager.System.addTimer_next hnext
  have htimers : TimerInv timers s.callback := by
    refine h.timers.next hnext (by simp) fun q ms r now heq => ?_
    simp only [TimerManager.Step.addTimer.injEq] at heq
    exact heq.2.2.2.1.symm
  have hlive : Live timers p := by
    refine ⟨hadded, fun hp => ?_⟩
    rw [hlog] at hp
    have hold : (p, .cancelled) ∈ s.timers.log := by simpa using hp
    have hsome := h.timers.lives.added_of_mem_log hold
    rw [hnone] at hsome
    cases hsome
  exact { h with
    timers := htimers
    live := hlive
    tokens := by
      have htokens := h.tokens
      rwa [hpc] at htokens
    adds := trivial
    past := fun q hq => (h.past q hq).imp_right (by rw [hpc]; rintro ⟨⟩) }

theorem Inv.disarmed (h : Inv d s) {p : P} {pc : Pc P}
    (hpc : (s.pc = .woken p ∧ pc = .checking) ∨ (s.pc = .failed p ∧ pc = .returned))
    (hnext : s.timers.next (.cancel p) = some timers) :
    Inv d { s with timers := timers, pc := pc } := by
  have htimers : TimerInv timers s.callback := h.timers.next hnext (by simp) (by simp)
  have htokens := h.tokens
  rcases hpc with ⟨hpc, rfl⟩ | ⟨hpc, rfl⟩ <;> rw [hpc] at htokens
  · exact { h with
      timers := htimers
      live := trivial
      tokens := htokens
      adds := trivial
      past := fun q hq => (h.past q hq).imp_right (by rw [hpc]; rintro ⟨⟩) }
  · exact { h with
      timers := htimers
      live := trivial
      tokens := htokens
      adds := trivial
      past := fun q hq => Or.inr rfl }

/-- The timers of others expire, are added, cancelled and re-armed. -/
theorem Inv.foreign (h : Inv d s) {a : TimerManager.Step P (Callback Unit)}
    (ha : ForeignTimer s.timers.added a = true) (hnext : s.timers.next a = some timers) :
    Inv d { s with
      timers := timers
      callback := handOut (timers.log.drop s.timers.log.length) s.callback } := by
  obtain ⟨htimers, hkept⟩ := h.timers.foreign ha hnext
  generalize handOut (timers.log.drop s.timers.log.length) s.callback = callback' at htimers hkept
  have hsame (q : P) (hq : callback' q ≠ .queued) : callback' q = s.callback q := by
    rcases hkept q with heq | ⟨-, heq⟩
    · exact heq
    · exact absurd heq hq
  have hlive : PcLive timers s.pc := by
    have hlive' (p : P) (hp : Live s.timers p) : Live timers p := by
      refine hp.next hnext ?_
      rintro rfl
      simp [ForeignTimer, hp.1, Callback.isCondition] at ha
    have hold := h.live
    cases hpc : s.pc <;> rw [hpc] at hold <;> first | exact hlive' _ hold | trivial
  exact { h with
    timers := htimers
    live := hlive
    cancels := fun q => by
      rcases hkept q with heq | ⟨-, heq⟩ <;> simp only [heq]
      · exact h.cancels q
      · trivial
    apart := fun q q' t (hq : callback' q = _) (hq' : callback' q' = _) => by
      refine h.apart q q' t ?_ ?_
      · rw [← hsame q (by rw [hq]; simp)]
        exact hq
      · rw [← hsame q' (by rw [hq']; simp)]
        exact hq'
    past := fun q hq => by
      refine h.past q ?_
      rcases hkept q with heq | ⟨-, heq⟩ <;> simp only [heq] at hq
      · exact hq
      · cases hq
    lost := fun hreg hcancelled => by
      obtain ⟨q, hq⟩ := h.lost hreg hcancelled
      refine ⟨q, ?_⟩
      rcases hkept q with heq | ⟨harmed, -⟩
      · simpa only [heq] using hq
      · rw [harmed] at hq
        cases hq }

/-- `addEvent` is in its lookup. -/
theorem Inv.entered (h : Inv d s) {p : P} {t : ℕ} (hpc : s.pc = .adding p)
    (hnext : s.io.next (.call t d.fd d.add) = some io) :
    Inv d { s with io := io, pc := .registering p t } := by
  have hidle := h.idle hnext (Or.inl ⟨t, d.fd, d.add, rfl⟩)
  have hlive := h.live
  rw [hpc] at hlive
  refine hidle.move hlive ?_ ?_ ?_
  · show false = s.pc.waits
    rw [hpc]
    rfl
  · have htable := hidle.base.book.table.pc t
    obtain ⟨-, hnext⟩ := Next.of_next hnext
    cases hnext with
    | found t fd c ctx hout hctx =>
      rw [IOManager.System.move_pc_self] at htable
      refine Or.inl (IOManager.System.move_pc_self.trans ?_)
      rw [htable.1]
    | missing t fd event cb scheduler fiber hout hctx =>
      exact Or.inr ⟨IOManager.System.move_pc_self, List.getElem?_eq_none_iff.mp hctx⟩
    | refused t fd c hout hctx hc => exact (hc _ _ _ _ rfl).elim
  · show s.pc = .returned → _
    rw [hpc]
    rintro ⟨⟩

/-- `addEvent` resizes the table. -/
theorem Inv.grown (h : Inv d s) {p : P} {t : ℕ} (hpc : s.pc = .registering p t)
    (hnext : s.io.next (.grow t) = some io) : Inv d { s with io := io } := by
  have hadds := h.adds
  rw [hpc] at hadds
  have hgrowing : s.io.pc t = .growing d.fd d.add ∧ s.io.io.fdContexts.length ≤ d.fd := by
    rcases hadds with hholding | hgrowing
    · obtain ⟨-, hnext⟩ := Next.of_next hnext
      cases hnext with
      | grown t fd c ctx hpc' | outOfBounds t fd c hpc' =>
        rw [hholding] at hpc'
        cases hpc'
    · exact hgrowing
  have hcalm : d.Calm s.io io := by
    refine h.base.calm (a := .grow t) (fun fd c hpc' => ?_) hnext
    obtain ⟨rfl, -⟩ := IOManager.Pc.growing.inj (hgrowing.1.symm.trans hpc')
    have hle : d.fd ≤ IOManager.growTarget d.fd := by
      unfold IOManager.growTarget
      omega
    exact le_trans hgrowing.2 hle
  have hadds' : AddThread d io s.pc := by
    rw [hpc]
    have htable := hcalm.base.book.table.pc t
    obtain ⟨-, hnext⟩ := Next.of_next hnext
    cases hnext with
    | grown t fd c ctx hpc' hctx =>
      obtain ⟨rfl, rfl⟩ := IOManager.Pc.growing.inj (hgrowing.1.symm.trans hpc')
      rw [IOManager.System.move_pc_self] at htable
      refine Or.inl (IOManager.System.move_pc_self.trans ?_)
      rw [htable.1]
    | outOfBounds t fd c hpc' hctx =>
      obtain ⟨rfl, rfl⟩ := IOManager.Pc.growing.inj (hgrowing.1.symm.trans hpc')
      exact Or.inr ⟨hgrowing.1, List.getElem?_eq_none_iff.mp hctx⟩
  exact { h with
    base := hcalm.base
    tokens := hcalm.tokens.trans h.tokens
    adds := hadds'
    cancels := fun q => (h.cancels q).other hnext rfl (by rw [hgrowing.1]; simp)
    lost := fun hreg => h.lost (hcalm.registered hreg) }

theorem Inv.not_registered (h : Inv d s) (hpc : s.pc.waits = false) :
    ¬ d.Registered s.io.io ∧ s.io.io.scheduled.count d.resume = 0 := by
  have htokens := h.tokens
  rw [hpc, if_neg Bool.false_ne_true, DoIo.tokens] at htokens
  by_cases hreg : d.Registered s.io.io
  · rw [if_pos hreg] at htokens
    omega
  · exact ⟨hreg, by omega⟩

/-- `addEvent` runs under the mutex of the context. -/
theorem Inv.registered (h : Inv d s) {p : P} {t : ℕ} {fails : Bool}
    (hpc : s.pc = .registering p t) (hok : Timely d s (.register fails))
    (hnext : s.io.next (.critical t fails) = some io) :
    Inv d { s with io := io, pc := if s.io.returns t fails then .added p else .failed p } := by
  have hadds := h.adds
  have hlive := h.live
  have htokens := h.tokens
  have hold := (h.not_registered (by rw [hpc]; rfl)).1
  rw [hpc] at hadds hlive htokens
  have hholding : s.io.pc t = .holding d.fd d.fd d.add := by
    rcases hadds with hholding | ⟨hgrowing, -⟩
    · exact hholding
    · obtain ⟨-, hnext⟩ := Next.of_next hnext
      cases hnext with
      | returned t ctx fd c fails b io hpc' | asserted t ctx fd c fails a hpc' =>
        rw [hgrowing] at hpc'
        cases hpc'
  obtain ⟨hbase, htokens', hreg⟩ := h.base.register hholding hold hnext
  have hcancels (q : P) : CancelThread d io (s.callback q) := by
    refine (h.cancels q).other hnext rfl ?_
    rw [hholding]
    simp [DoIo.add]
  have hlost (hreg' : d.Registered io.io) (hcancelled : s.cancelled = true) :
      ∃ q, (s.callback q).cancels := by
    obtain ⟨-, hfails⟩ := hreg hreg'
    rcases hok with hfails' | hfalse | hcancels
    · rw [hfails] at hfails'
      cases hfails'
    · rw [hcancelled] at hfalse
      cases hfalse
    · exact hcancels
  have hpast (q : P) (hq : (s.callback q).past) : s.cancelled = true := by
    refine (h.past q hq).resolve_right ?_
    rw [hpc]
    rintro ⟨⟩
  rw [htokens] at htokens'
  cases hreturns : s.io.returns t fails <;> rw [hreturns] at htokens' <;> exact { h with
    base := hbase
    live := by first | exact hlive | trivial
    tokens := htokens'
    adds := trivial
    cancels := hcancels
    past := fun q hq => Or.inl (hpast q hq)
    lost := hlost }

/-- A worker resumes the fiber. -/
theorem Inv.woken (h : Inv d s) {p : P} (hpc : s.pc = .parked p)
    (hmem : d.resume ∈ s.io.io.scheduled) :
    Inv d { s with io := s.io.take d.resume, pc := .woken p } := by
  have htokens := h.tokens
  rw [hpc, DoIo.tokens] at htokens
  have hpos : 0 < s.io.io.scheduled.count d.resume := List.count_pos_iff.mpr hmem
  have hreg : ¬ d.Registered s.io.io := by
    intro hreg
    rw [if_pos hreg] at htokens
    simp only [Pc.waits, if_true] at htokens
    omega
  have hbook := h.base.book
  have hwatched := h.base.watched
  have hsound := hbook.sound
  have htable := hbook.table
  have htabled := htable.tabled
  have hbalanced := hbook.balanced
  have hbase : d.Base (s.io.take d.resume) :=
    ⟨⟨⟨⟨hsound.io.consistent, hsound.io.slot, hsound.io.ptr, hsound.io.count⟩, hsound.pc⟩,
      ⟨htable.consistent, ⟨htabled.fdContexts, htabled.fd, htabled.size⟩, htable.pc⟩,
      ⟨hbalanced.kernel, hbalanced.calls⟩⟩,
      ⟨hwatched.others, hwatched.waiting, hwatched.inTable⟩⟩
  exact { h with
    base := hbase
    live := trivial
    tokens := by
      show (s.io.io.scheduled.erase d.resume).count d.resume +
        (if d.Registered s.io.io then 1 else 0) = 0
      rw [if_neg hreg] at htokens ⊢
      simp only [Pc.waits, if_true] at htokens
      rw [List.count_erase_self]
      omega
    adds := trivial
    cancels := h.cancels
    past := fun q hq => (h.past q hq).imp_right (by rw [hpc]; rintro ⟨⟩)
    lost := fun hreg' => absurd hreg' hreg }

/-- The callback of a timer looks its context up in `cancelEvent`. -/
theorem Inv.look (h : Inv d s) {p : P} {t : ℕ} (hcallback : s.callback p = .cancelling)
    (hnext : s.io.next (.call t d.fd (.cancelEvent d.event)) = some io) :
    Inv d { s with
      io := io
      callback := Function.update s.callback p
        (if (s.io.io.fdContexts[d.fd]?).isSome then .removing t else .finished) } := by
  have hidle := h.idle hnext (Or.inl ⟨t, d.fd, _, rfl⟩)
  have hpast : s.cancelled = true ∨ s.pc = .returned := by
    apply h.past p
    rw [hcallback]
    rfl
  have hregistered : d.Registered io.io → (s.io.io.fdContexts[d.fd]?).isSome = true := by
    intro hreg
    have hcreated := hidle.base.watched.inTable hreg
    have htable := hidle.base.book.table.tabled
    have hsame := IOManager.System.fdContexts_next h.base.book.table.consistent hnext (by simp)
    rw [← hsame, htable.getElem?.mpr ⟨rfl, hcreated⟩]
    rfl
  have hq : s.callback p ≠ .armed := by
    rw [hcallback]
    simp
  split_ifs with hslot
  · have hout : s.io.pc t = .outside ∧
        io.pc t = .holding d.fd d.fd (.cancelEvent d.event) := by
      have htable := hidle.base.book.table.pc t
      obtain ⟨-, hnext⟩ := Next.of_next hnext
      cases hnext with
      | found t fd c ctx hout hctx =>
        rw [IOManager.System.move_pc_self] at htable
        refine ⟨hout, IOManager.System.move_pc_self.trans ?_⟩
        rw [htable.1]
      | refused t fd c hout hctx =>
        rw [hctx] at hslot
        cases hslot
    refine hidle.advance hq (by simp) id hout.2 (fun t' ht q' hq' => ?_) (fun _ => hpast)
      fun _ _ => Or.inl rfl
    obtain rfl := CallbackPc.removing.inj ht
    have hremoving := h.cancels q'
    rw [show s.callback q' = _ from hq'] at hremoving
    have hholding : s.io.pc t = _ := hremoving
    rw [hout.1] at hholding
    cases hholding
  · exact hidle.advance hq (by simp) id trivial (by simp) (fun _ => hpast)
      fun hreg _ => absurd (hregistered hreg) hslot

/-- The callback of a timer is in `cancelEvent`. -/
theorem Inv.cancelled (h : Inv d s) {p : P} {t : ℕ} {fails : Bool}
    (hcallback : s.callback p = .removing t) (hok : Timely d s (.cancel p fails))
    (hnext : s.io.next (.critical t fails) = some io) :
    Inv d { s with io := io, callback := Function.update s.callback p .finished } := by
  have hholding : s.io.pc t = .holding d.fd d.fd (.cancelEvent d.event) := by
    have hthread := h.cancels p
    rwa [hcallback] at hthread
  obtain ⟨hcalm, hreg⟩ := h.base.cancel hholding hok hnext
  refine h.advanceIO (by rw [hcallback]; simp) (by simp) id hcalm.base hcalm.tokens
    (h.adds.other h.base hnext hholding) (fun q hqp => ?_) trivial (by simp)
    (fun _ => h.past p (by rw [hcallback]; rfl)) fun hreg' _ => absurd hreg' hreg
  have hthread := h.cancels q
  cases hq : s.callback q with
  | removing t' =>
    -- another callback, so another thread
    rw [hq] at hthread
    have hne : some t ≠ some t' := by
      rintro ⟨⟩
      exact hqp (h.apart q p t hq hcallback)
    exact (IOManager.System.pc_next hnext hne).trans hthread
  | armed | queued | passed | cancelling | finished => trivial

/-- **Step lemma.** -/
theorem Inv.next {a : Step P} (h : Inv d s) (hok : Timely d s a) (hnext : s.next d a = some s') :
    Inv d s' := by
  replace hnext := System.Next.of_next hnext
  cases hnext with
  | called r pc hpc hto =>
    refine h.move ?_ ?_ ?_ (by rw [hpc]; rintro ⟨⟩)
    · rcases hto with rfl | rfl | rfl <;> trivial
    · rw [hpc]
      rcases hto with rfl | rfl | rfl <;> rfl
    · rcases hto with rfl | rfl | rfl <;> trivial
  | armed p now timers hpc hnext => exact h.armed hpc hnext
  | entered p t io hpc hnext => exact h.entered hpc hnext
  | grown p t io hpc hnext => exact h.grown hpc hnext
  | registered p t fails io hpc hnext => exact h.registered hpc hok hnext
  | parked p hpc =>
    have hlive := h.live
    rw [hpc] at hlive
    exact h.move hlive (by rw [hpc]; rfl) trivial (by rw [hpc]; rintro ⟨⟩)
  | woken p hpc hmem => exact h.woken hpc hmem
  | disarmed p timers pc hpc hnext => exact h.disarmed hpc hnext
  | checked pc hpc hto =>
    refine h.move ?_ ?_ ?_ (by rw [hpc]; rintro ⟨⟩)
    · rcases hto with rfl | rfl <;> trivial
    · rw [hpc]
      rcases hto with rfl | rfl <;> rfl
    · rcases hto with rfl | rfl <;> trivial
  | foreign a timers ha hnext => exact h.foreign ha hnext
  | dropped p hcallback hdropped =>
    refine h.advance (by rw [hcallback]; simp) (by simp) id trivial (by simp) (fun _ => hdropped)
      fun hreg hcancelled => Or.inr ?_
    -- the callback that has set `cancelled` is another one
    obtain ⟨q, hq⟩ := h.lost hreg hcancelled
    refine ⟨q, ?_, hq⟩
    rintro rfl
    rw [hcallback] at hq
    cases hq
  | passed p hcallback hlive =>
    exact h.advance (by rw [hcallback]; simp) (by simp) id trivial (by simp) (by rintro ⟨⟩)
      fun _ _ => Or.inl rfl
  | set p hcallback =>
    exact h.advance (by rw [hcallback]; simp) (by simp) (fun _ => rfl) trivial (by simp)
      (fun _ => Or.inl rfl) fun _ _ => Or.inl rfl
  | looked p t io hcallback hnext => exact h.look hcallback hnext
  | cancelled p t fails io hcallback hnext => exact h.cancelled hcallback hok hnext
  | waited t ready io hnext => exact h.idle hnext (Or.inr (Or.inl ⟨t, ready, rfl⟩))
  | handled t fails io hnext => exact h.idle hnext (Or.inr (Or.inr ⟨t, fails, rfl⟩))

/-! ### Runs -/

/-- The call has not yet begun to wait: the event is not registered, none of the timers is its own,
and the fiber runs. -/
structure Start (d : DoIo) (timers : TimerManager.System P (Callback Unit))
    (io : IOManager.System) : Prop where
  lives : timers.Inv
  others : ∀ q, timers.added q ≠ some (.condition ())
  book : io.BookInv
  registered : (io.io.mem d.fd).events.test d.event = false
  waits : ∀ p e, ((io.io.mem p).getContext e).fiber ≠ some d.fiber
  queued : d.resume ∉ io.io.scheduled

namespace System

/-- `do_io` at its label `retry`. -/
def start (timers : TimerManager.System P (Callback Unit)) (io : IOManager.System) : System P :=
  { timers := timers, io := io, pc := .calling, cancelled := false, callback := fun _ => .armed }

/-- A callback that is going to cancel the event. -/
def WillCancel (s : System P) (q : P) : Prop :=
  (s.callback q).cancels ∨ (s.callback q = .queued ∧ s.cancelled = false)

end System

theorem Start.inv (h : Start d timers io) : Inv d (System.start timers io) where
  timers := by
    refine ⟨h.lives, fun q hq => absurd hq (h.others q), fun q => ?_⟩
    refine iff_of_false (fun hne => hne rfl) fun hq => ?_
    exact h.others q (h.lives.handed q _ hq).1.symm
  live := trivial
  base := by
    have hreg : ¬ d.Registered io.io := Bool.eq_false_iff.mp h.registered
    exact ⟨h.book, fun p e _ => h.waits p e, fun hreg' => absurd hreg' hreg,
      fun hreg' => absurd hreg' hreg⟩
  tokens := by
    have hreg : ¬ d.Registered io.io := Bool.eq_false_iff.mp h.registered
    show d.tokens io.io = 0
    rw [DoIo.tokens, if_neg hreg, List.count_eq_zero.mpr h.queued]
  adds := trivial
  cancels _ := trivial
  apart _ _ _ hq := by cases hq
  past _ hq := by cases hq
  lost _ hcancelled := by cases hcancelled

/-- **A parked fiber is woken.** -/
theorem Inv.parked (h : Inv d s) {p : P} (hpc : s.pc = .parked p) :
    p ∈ s.timers.tm.timer ∨ (∃ q, s.WillCancel q) ∨ d.resume ∈ s.io.io.scheduled := by
  have htokens := h.tokens
  have hlive := h.live
  rw [hpc] at htokens hlive
  have hreturned : s.pc ≠ .returned := by
    rw [hpc]
    simp
  by_cases hreg : d.Registered s.io.io
  swap
  · -- the event has been taken out, so the resumption is queued
    refine Or.inr (Or.inr (List.count_pos_iff.mp ?_))
    rw [DoIo.tokens, if_neg hreg] at htokens
    simp only [Pc.waits, if_true] at htokens
    omega
  cases hcancelled : s.cancelled with
  | true =>
    obtain ⟨q, hq⟩ := h.lost hreg hcancelled
    exact Or.inr (Or.inl ⟨q, Or.inl hq⟩)
  | false =>
    -- nobody has cancelled, so the callback of the current timer has its way to go
    have hpast : (s.callback p).past = false := by
      rw [Bool.eq_false_iff]
      intro hpast
      rcases h.past p hpast with htrue | hret
      · rw [hcancelled] at htrue
        cases htrue
      · exact hreturned hret
    cases hcallback : s.callback p with
    | armed => exact Or.inl (h.timers.mem_timer hlive hcallback)
    | queued => exact Or.inr (Or.inl ⟨p, Or.inr ⟨hcallback, hcancelled⟩⟩)
    | passed => exact Or.inr (Or.inl ⟨p, Or.inl (by rw [hcallback]; rfl)⟩)
    | cancelling | removing t | finished =>
      rw [hcallback] at hpast
      cases hpast

namespace System

/-- **No timeout is lost** in a run in which no callback cancels the event between the moment its
timer is armed and the moment `addEvent` registers it: a parked fiber has its timer in the set, a
callback on its way to cancel the event, or a resumption in the queue of its scheduler. -/
theorem timeout_of_run (hstart : Start d timers io) {as : List (Step P)}
    (hok : Transition.StepsMeet (next d) (Timely d) (start timers io) as)
    (hrun : Transition.run (next d) (start timers io) as = some s) {p : P}
    (hparked : s.pc = .parked p) :
    p ∈ s.timers.tm.timer ∨ (∃ q, s.WillCancel q) ∨ d.resume ∈ s.io.io.scheduled := by
  have hinv : Inv d s := Transition.invariant_of_stepsMeet (Inv d)
    (fun _ _ _ h hok hnext => h.next hok hnext) hstart.inv hok hrun
  exact hinv.parked hparked

/-- A call of `do_io` in a process that has just begun. -/
theorem start_init (d : DoIo) (mem : P → Timer (Callback Unit)) (now : ℕ) :
    Start d (.init mem now) .init := by
  have hfresh (p : ℕ) : ∃ fd, IOManager.System.init.io.mem p = .new fd := IOManager.new_mem p
  refine ⟨TimerManager.System.inv_init mem now, fun q hq => (by cases hq),
    IOManager.System.bookInv_init, ?_, fun p e => ?_, List.not_mem_nil⟩
  · obtain ⟨fd, hnew⟩ := hfresh d.fd
    rw [hnew]
    cases d.event <;> rfl
  · obtain ⟨fd, hnew⟩ := hfresh p
    rw [hnew]
    cases e <;> simp [FdContext.new, FdContext.getContext, EventContext.empty]

/-- A read on descriptor 5 with a timeout of 10 milliseconds. -/
def readFive : DoIo := ⟨5, .READ, 10, 1, 0⟩

/-- A process in which nothing has happened yet. -/
def fresh : System ℕ := start (.init (fun _ => ⟨false, 0, 0, none⟩) 0) .init

/-- The timer fires and its callback runs to the end before `addEvent` registers the event. -/
def firesEarly : List (Step ℕ) :=
  [.call .EAGAIN, .arm 1 0, .timer (.listTest 20), .timer (.listTake 20 9), .test 1, .set 1,
    .look 1 7, .cancel 1 false, .enter 3, .register false, .park]

/-- The fiber is then parked with its event registered, and nothing is left that would end the
wait when no data arrives. -/
theorem timeout_firesEarly :
    ∃ s, Transition.run (next readFive) fresh firesEarly = some s ∧ s.pc = .parked 1 ∧
      (s.io.io.mem 5).events.test .READ = true ∧ 1 ∉ s.timers.tm.timer ∧
      (∀ q, ¬ s.WillCancel q) ∧ readFive.resume ∉ s.io.io.scheduled := by
  refine ⟨_, rfl, rfl, rfl, List.not_mem_nil, fun q => ?_, List.not_mem_nil⟩
  rintro (hcancels | ⟨hqueued, hcancelled⟩)
  · -- no other timer has ever been handed out
    by_cases hq : q = 1
    · subst hq
      cases hcancels
    · have harmed (f : ℕ → CallbackPc ℕ) (pc : CallbackPc ℕ) (h : f q = .armed) :
          Function.update f 1 pc q = .armed := by
        rw [Function.update_of_ne hq, h]
      have hqueued (L : List (ℕ × TimerEvent (Callback Unit))) (f : ℕ → CallbackPc ℕ)
          (hL : ∀ e ∈ L, e.1 = 1) (h : f q = .armed) : handOut L f q = .armed := by
        rw [handOut_of_notMem fun _ hmem => hq (hL _ hmem), h]
      have hcallback := harmed _ .finished (harmed _ (.removing 7) (harmed _ .cancelling
        (harmed _ .passed (hqueued [(1, .handed (some (.condition ())))] _ (by simp)
          (hqueued [] (fun _ => .armed) (by simp) rfl)))))
      have hnone := congrArg CallbackPc.cancels hcallback
      exact Bool.false_ne_true (hnone.symm.trans hcancels)
  · cases hcancelled

/-- A call that parks before its timer fires. -/
theorem timeout_of_run_inTime :
    ∃ s, Transition.run (next readFive) fresh
        [.call .EAGAIN, .arm 1 0, .enter 3, .register false, .park, .timer (.listTest 20),
          .timer (.listTake 20 9)] = some s ∧
      (1 ∈ s.timers.tm.timer ∨ (∃ q, s.WillCancel q) ∨ readFive.resume ∈ s.io.io.scheduled) := by
  refine ⟨_, rfl, @timeout_of_run _ _ readFive _ _ _
    (start_init readFive (fun _ => ⟨false, 0, 0, none⟩) 0)
    [.call .EAGAIN, .arm 1 0, .enter 3, .register false, .park, .timer (.listTest 20),
      .timer (.listTake 20 9)] ?_ rfl _ rfl⟩
  exact .cons rfl trivial (.cons rfl trivial (.cons rfl trivial (.cons rfl (Or.inr (Or.inl rfl))
    (.cons rfl trivial (.cons rfl trivial (.cons rfl trivial trivial))))))

end System

end Muhui.DoIo
