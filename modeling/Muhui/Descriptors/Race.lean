/-
  `FdManager::get(fd, true)` called by several threads.

  A call takes its two critical sections one after the other, and any thread may run between them.
  The second section does not look again, so two threads that have both missed make a context each.
  `get(fd, false)` has one section, which changes nothing, and is left out.
-/
import Muhui.Descriptors.FdManager

namespace Muhui.Descriptors

structure Threads (T : Type*) where
  fds : FdManager
  /-- The descriptor of each thread that has missed and not created yet. -/
  missed : T → Option ℤ
  /-- What the calls of `get(fd, true)` have returned, the last one first. -/
  returned : List (ℤ × ℕ)

inductive Section (T : Type*)
  | lookup (t : T) (fd : ℤ)
  | create (t : T)
  | del (fd : ℤ)

namespace Threads

variable {T : Type*}

/-- Nobody is in a call. -/
def start (m : FdManager) : Threads T := { fds := m, missed := fun _ => none, returned := [] }

def next [DecidableEq T] (s : Threads T) : Section T → Option (Threads T)
  | .lookup t fd =>
    if (s.missed t).isSome then none
    else
      (s.fds.lookup fd true).bind fun
        | .returns ctx => ctx.map fun id => { s with returned := (fd, id) :: s.returned }
        | .misses => some { s with missed := Function.update s.missed t (some fd) }
  | .create t =>
    (s.missed t).bind fun fd =>
      (s.fds.create fd).map fun r =>
        { fds := r.1
          missed := Function.update s.missed t none
          returned := (fd, r.2) :: s.returned }
  | .del fd => (s.fds.del fd).map fun m => { s with fds := m }

/-! ### One context -/

/-- All calls for the descriptor have returned one and the same context. -/
def OneContext (fd : ℤ) (s : Threads T) : Prop :=
  ∀ id id', (fd, id) ∈ s.returned → (fd, id') ∈ s.returned → id = id'

/-- The sections stay inside the vector (`InVector` for a single thread), and no thread begins a
call for `fd` while another one is between the two sections of a call for `fd`. -/
def Alone (fd : ℤ) (s : Threads T) : Section T → Prop
  | .lookup _ fd' =>
    (0 ≤ fd' ∧ fd' ≠ s.fds.datas.length) ∧ (fd' = fd → ∀ t, s.missed t ≠ some fd)
  | .create t =>
    ∀ fd' ∈ s.missed t, 0 ≤ fd' ∧ ((s.fds.datas.length : ℤ) ≤ fd' → 3 * fd' / 2 < 2 ^ 31)
  | .del fd' => (0 ≤ fd' ∧ fd' ≠ s.fds.datas.length) ∧ fd' ≠ fd

instance [Fintype T] (fd : ℤ) (s : Threads T) : ∀ a, Decidable (Alone fd s a)
  | .lookup _ _ => inferInstanceAs (Decidable ((_ ∧ _) ∧ (_ → ∀ _, _ ≠ _)))
  | .create _ => inferInstanceAs (Decidable (∀ _ ∈ _, _))
  | .del _ => inferInstanceAs (Decidable ((_ ∧ _) ∧ _))

/-- What was returned is the entry; between the sections there is at most one thread, and then there
is no entry. -/
structure Agrees (fd : ℤ) (s : Threads T) : Prop where
  sized : s.fds.Sized
  entry : ∀ id, (fd, id) ∈ s.returned → s.fds.entry fd = some id
  absent : ∀ t, s.missed t = some fd → s.fds.entry fd = none
  single : ∀ t t', s.missed t = some fd → s.missed t' = some fd → t = t'

variable {fd : ℤ} {s s' : Threads T} {m : FdManager}

theorem agrees_start (hm : m.Sized) (fd : ℤ) : Agrees fd (start m : Threads T) :=
  ⟨hm, nofun, nofun, nofun⟩

theorem Agrees.oneContext (h : Agrees fd s) : OneContext fd s := by
  intro id id' hid hid'
  exact Option.some.inj ((h.entry id hid).symm.trans (h.entry id' hid'))

variable [DecidableEq T]

/-- A lookup returns the entry, or the thread has missed. -/
theorem Agrees.lookup (h : Agrees fd s) {t : T} {fd' : ℤ} (hok : Alone fd s (.lookup t fd'))
    (hnext : s.next (.lookup t fd') = some s') : Agrees fd s' := by
  obtain ⟨⟨h0, hsize⟩, halone⟩ := hok
  have hlookup := FdManager.lookup_eq h.sized h0 hsize true
  simp only [next] at hnext
  split_ifs at hnext with hmissed
  rw [hlookup, Option.bind_some] at hnext
  cases hentry : s.fds.entry fd' with
  | some id =>
    rw [hentry] at hnext
    obtain rfl := Option.some.inj hnext
    refine ⟨h.sized, fun id' hid' => ?_, h.absent, h.single⟩
    rcases List.mem_cons.mp hid' with heq | hold
    · obtain ⟨rfl, rfl⟩ := Prod.mk.inj heq
      exact hentry
    · exact h.entry id' hold
  | none =>
    rw [hentry] at hnext
    obtain rfl := Option.some.inj hnext
    refine ⟨h.sized, h.entry, fun t' ht' => ?_, fun t₁ t₂ h₁ h₂ => ?_⟩
    · replace ht' : Function.update s.missed t (some fd') t' = some fd := ht'
      rw [Function.update_apply] at ht'
      split_ifs at ht' with heq
      · obtain rfl := Option.some.inj ht'
        exact hentry
      · exact h.absent t' ht'
    · replace h₁ : Function.update s.missed t (some fd') t₁ = some fd := h₁
      replace h₂ : Function.update s.missed t (some fd') t₂ = some fd := h₂
      rw [Function.update_apply] at h₁ h₂
      split_ifs at h₁ h₂ with heq₁ heq₂ heq₂
      · rw [heq₁, heq₂]
      -- another thread is between its sections for `fd`, so this lookup was not for `fd`
      · exact absurd h₂ (halone (Option.some.inj h₁) t₂)
      · exact absurd h₁ (halone (Option.some.inj h₂) t₁)
      · exact h.single t₁ t₂ h₁ h₂

/-- The only thread between its sections for `fd` makes the context that all others will find. -/
theorem Agrees.create (h : Agrees fd s) {t : T} (hok : Alone fd s (.create t))
    (hnext : s.next (.create t) = some s') : Agrees fd s' := by
  obtain ⟨fd', hfd', hnext⟩ := Option.bind_eq_some_iff.mp hnext
  obtain ⟨h0, hgrow⟩ := hok fd' hfd'
  obtain ⟨m, hcreate, hsized, -, hentry⟩ := FdManager.create_eq h.sized h0 hgrow
  rw [hcreate, Option.map_some] at hnext
  obtain rfl := Option.some.inj hnext
  have hother : ∀ t', Threads.missed ⟨m, Function.update s.missed t none,
      (fd', s.fds.made) :: s.returned⟩ t' = some fd → t' ≠ t ∧ s.missed t' = some fd := by
    intro t' ht'
    replace ht' : Function.update s.missed t none t' = some fd := ht'
    rw [Function.update_apply] at ht'
    split_ifs at ht' with heq
    exact ⟨heq, ht'⟩
  refine ⟨hsized, fun id hid => ?_, fun t' ht' => ?_, fun t₁ t₂ h₁ h₂ => ?_⟩
  · show m.entry fd = some id
    rw [hentry]
    rcases List.mem_cons.mp hid with heq | hold
    · obtain ⟨rfl, rfl⟩ := Prod.mk.inj heq
      exact if_pos rfl
    · -- something was returned for `fd` before, so this thread has not missed `fd`
      have hne : fd ≠ fd' := by
        rintro rfl
        have habsent := h.absent t hfd'
        rw [h.entry id hold] at habsent
        cases habsent
      rw [if_neg hne]
      exact h.entry id hold
  · obtain ⟨hne, hmissed⟩ := hother t' ht'
    show m.entry fd = none
    have hne' : fd ≠ fd' := by
      rintro rfl
      exact hne (h.single t' t hmissed hfd')
    rw [hentry, if_neg hne']
    exact h.absent t' hmissed
  · exact h.single t₁ t₂ (hother t₁ h₁).2 (hother t₂ h₂).2

theorem Agrees.del (h : Agrees fd s) {fd' : ℤ} (hok : Alone fd s (.del fd'))
    (hnext : s.next (.del fd') = some s') : Agrees fd s' := by
  -- another descriptor is deleted
  obtain ⟨⟨h0, hsize⟩, hne⟩ := hok
  obtain ⟨m, hdel, hlength, -, hentry⟩ := FdManager.del_eq h.sized h0 hsize
  simp only [next, hdel, Option.map_some] at hnext
  obtain rfl := Option.some.inj hnext
  have hsame : m.entry fd = s.fds.entry fd := by
    rw [hentry, if_neg hne.symm]
  refine ⟨⟨?_, ?_⟩, fun id hid => hsame.trans (h.entry id hid),
    fun t ht => hsame.trans (h.absent t ht), h.single⟩
  · show 64 ≤ m.datas.length
    rw [hlength]
    exact h.sized.initial
  · show m.datas.length < 2 ^ 31
    rw [hlength]
    exact h.sized.int

theorem Agrees.next (h : Agrees fd s) {a : Section T} (hok : Alone fd s a)
    (hnext : s.next a = some s') : Agrees fd s' := by
  cases a with
  | lookup t fd' => exact h.lookup hok hnext
  | create t => exact h.create hok hnext
  | del fd' => exact h.del hok hnext

/-- In every interleaving in which no two threads are between their sections for `fd` at once, and
`fd` is not deleted, all calls for `fd` return one context. -/
theorem oneContext_of_run (hm : m.Sized) {as : List (Section T)}
    (hok : Transition.StepsMeet next (Alone fd) (start m) as)
    (hrun : Transition.run next (start m) as = some s) : OneContext fd s :=
  (Transition.invariant_of_stepsMeet (Agrees fd) (fun _ _ _ h hok hnext => h.next hok hnext)
    (agrees_start hm fd) hok hrun).oneContext

/-- The second thread begins after the first one has made the context. -/
theorem oneContext_in_turn :
    ∃ s, Transition.run next (start FdManager.init : Threads Bool)
        [.lookup true 3, .create true, .lookup false 3] = some s ∧
      s.returned = [(3, 0), (3, 0)] ∧ OneContext 3 s := by
  have hreturned : (Transition.run next (start FdManager.init : Threads Bool)
      [.lookup true 3, .create true, .lookup false 3]).map Threads.returned =
        some [(3, 0), (3, 0)] := by
    decide +kernel
  obtain ⟨s, hrun, hs⟩ := Option.map_eq_some_iff.mp hreturned
  exact ⟨s, hrun, hs, oneContext_of_run FdManager.sized_init (by decide +kernel) hrun⟩

/-- Both threads miss, and each one makes a context of its own. -/
theorem not_oneContext_overlap :
    ∃ s, Transition.run next (start FdManager.init : Threads Bool)
        [.lookup true 3, .lookup false 3, .create true, .create false] = some s ∧
      ¬ OneContext 3 s := by
  have hreturned : (Transition.run next (start FdManager.init : Threads Bool)
      [.lookup true 3, .lookup false 3, .create true, .create false]).map Threads.returned =
        some [(3, 1), (3, 0)] := by
    decide +kernel
  obtain ⟨s, hrun, hs⟩ := Option.map_eq_some_iff.mp hreturned
  refine ⟨s, hrun, fun hone => ?_⟩
  have heq : 1 = 0 := hone 1 0 (by rw [hs]; decide) (by rw [hs]; decide)
  omega

end Threads

end Muhui.Descriptors
