/-
  The table of contexts.

  `addEvent` tests the length of the table under the read lock and resizes it, to a size that
  depends on its own descriptor only, under the write lock taken later.  When another thread has
  grown the table further in between, the resize shrinks it: contexts with registered events fall
  out of the table, and a second context is made for the same descriptor when the table grows
  again.  As long as no resize asks for less than there already is, slot `fd` holds context number
  `fd` for good (`TableInv`), and every call on `fd` works on it.
-/
import Muhui.IOManager.Count

namespace Muhui.IOManager

variable {io : IOManager} {size : ℕ}

/-- Slot `fd` of the table holds context number `fd`, and its descriptor is `fd`. -/
structure Tabled (io : IOManager) : Prop where
  fdContexts : io.fdContexts = List.range io.created
  fd : ∀ p < io.created, (io.mem p).fd = p
  size : 32 ≤ io.created

theorem Tabled.length (h : io.Tabled) : io.fdContexts.length = io.created := by
  rw [h.fdContexts, List.length_range]

theorem Tabled.getElem? (h : io.Tabled) {fd ctx : ℕ} :
    io.fdContexts[fd]? = some ctx ↔ ctx = fd ∧ fd < io.created := by
  rw [h.fdContexts]
  by_cases hfd : fd < io.created
  · simp [hfd, eq_comm]
  · simp [hfd]

/-- A resize that does not ask for less appends fresh contexts. -/
theorem contextResize_eq (h : io.fdContexts = List.range io.created) (hsize : io.created ≤ size) :
    (io.contextResize size).fdContexts = List.range size ∧
      (io.contextResize size).created = size ∧
      (∀ p, p < io.created → (io.contextResize size).mem p = io.mem p) ∧
      (∀ p, io.created ≤ p → p < size → (io.contextResize size).mem p = .new p) := by
  have hkept : io.fdContexts.take size = List.range io.created := by
    rw [h, List.take_of_length_le (by rwa [List.length_range])]
  have hlength : (List.range io.created).length = io.created := List.length_range
  have hadd : io.created + (size - io.created) = size := by omega
  simp only [contextResize, hkept, hlength, hadd]
  refine ⟨?_, trivial, fun p hp => ?_, fun p hp hp' => ?_⟩
  · rw [← List.range_add, hadd]
  · rw [if_neg (by omega)]
  · rw [if_pos ⟨hp, hp'⟩]
    congr 1
    omega

theorem Tabled.contextResize (h : io.Tabled) (hsize : io.created ≤ size) :
    (io.contextResize size).Tabled := by
  obtain ⟨htable, hcreated, hold, hnew⟩ := contextResize_eq h.fdContexts hsize
  refine ⟨by rw [htable, hcreated], fun p hp => ?_, ?_⟩
  · rw [hcreated] at hp
    by_cases hlt : p < io.created
    · rw [hold p hlt, h.fd p hlt]
    · rw [hnew p (by omega) hp]
      rfl
  · have hold := h.size
    omega

theorem new_tabled : new.Tabled where
  fdContexts := rfl
  fd p hp := by
    have hp : p < 32 := hp
    simp [new, IOManager.contextResize, FdContext.new, hp]
  size := le_refl 32

theorem Tabled.commits {ctx fd : ℕ} {effect : FdContext.Effect} {fails b : Bool}
    {io' : IOManager} (h : io.Tabled) (hcommits : Commits io ctx fd effect fails b io') :
    io'.Tabled := by
  obtain ⟨htable, hcreated, hfd⟩ := hcommits.table
  refine ⟨by rw [htable, hcreated, h.fdContexts], fun p hp => ?_, by rw [hcreated]; exact h.size⟩
  rw [hfd, h.fd p (hcreated ▸ hp)]

namespace System

variable {s s' : System} {a : Step}

/-- No resize asks for less than the table already has. -/
def Grows (s : System) : Step → Prop
  | .grow t => ∀ fd c, s.pc t = .growing fd c → s.io.fdContexts.length ≤ growTarget fd
  | _ => True

/-- What a thread knows about the table. -/
def PcInv (io : IOManager) : Pc → Prop
  | .outside => True
  | .growing fd _ => 32 ≤ fd
  | .holding ctx fd _ => ctx = fd ∧ fd < io.created
  | .polling _ => True

structure TableInv (s : System) : Prop where
  consistent : s.io.Consistent
  tabled : s.io.Tabled
  pc : ∀ t, PcInv s.io (s.pc t)

theorem PcInv.mono {io io' : IOManager} (h : io.created ≤ io'.created) :
    ∀ {pc : Pc}, PcInv io pc → PcInv io' pc
  | .outside, _ => trivial
  | .growing _ _, hpc => hpc
  | .holding _ _ _, hpc => ⟨hpc.1, lt_of_lt_of_le hpc.2 h⟩
  | .polling _, _ => trivial

/-- A step that moves one thread. -/
theorem TableInv.move (h : s.TableInv) {t : ℕ} {pc : Pc} {io : IOManager}
    (hconsistent : io.Consistent) (htabled : io.Tabled) (hcreated : s.io.created ≤ io.created)
    (hpc : PcInv io pc) : (s.move t pc io).TableInv where
  consistent := hconsistent
  tabled := htabled
  pc t' := by
    by_cases ht : t' = t
    · subst ht
      simpa [System.move] using hpc
    · simpa [System.move, Function.update_of_ne ht] using (h.pc t').mono hcreated

/-- **Step lemma.** -/
theorem TableInv.next (h : s.TableInv) (hgrows : Grows s a) (hnext : s.next a = some s') :
    s'.TableInv ∧ s.io.created ≤ s'.io.created := by
  have hconsistent := consistent_next h.consistent hnext
  obtain ⟨-, hnext⟩ := Next.of_next hnext
  have hstay : ∀ t pc, PcInv s.io pc → (s.move t pc s.io).TableInv ∧
      s.io.created ≤ (s.move t pc s.io).io.created := fun t pc hpc =>
    ⟨h.move h.consistent h.tabled le_rfl hpc, le_rfl⟩
  cases hnext with
  | found t fd c ctx hpc hctx => exact hstay t _ (h.tabled.getElem?.mp hctx)
  | missing t fd event cb scheduler fiber hpc hctx =>
    refine hstay t _ (le_trans h.tabled.size ?_)
    rw [← h.tabled.length]
    exact List.getElem?_eq_none_iff.mp hctx
  | refused => exact ⟨h, le_rfl⟩
  | grown t fd c ctx hpc hctx =>
    have hsize := hgrows fd c hpc
    rw [h.tabled.length] at hsize
    obtain ⟨-, hcreated, -, -⟩ := contextResize_eq h.tabled.fdContexts hsize
    have htabled := h.tabled.contextResize hsize
    exact ⟨h.move hconsistent htabled (by omega) (htabled.getElem?.mp hctx),
      by simp only [System.move]; omega⟩
  | outOfBounds t fd c hpc hctx =>
    have hsize := hgrows fd c hpc
    rw [h.tabled.length] at hsize
    obtain ⟨-, hcreated, -, -⟩ := contextResize_eq h.tabled.fdContexts hsize
    have hle : s.io.created ≤ (s.io.contextResize (growTarget fd)).created := by omega
    exact ⟨⟨hconsistent, h.tabled.contextResize hsize, fun t => (h.pc t).mono hle⟩, hle⟩
  | returned t ctx fd c fails b io hpc hrun =>
    have hcommits := Call.run_commits h.consistent hrun
    have hcreated := hcommits.table.2.1
    exact ⟨h.move hconsistent (h.tabled.commits hcommits) (le_of_eq hcreated.symm) trivial,
      le_of_eq hcreated.symm⟩
  | asserted t ctx fd c fails a hpc hrun => exact ⟨⟨h.consistent, h.tabled, h.pc⟩, le_rfl⟩
  | waited t ready events hpc hevents => exact hstay t _ trivial
  | finished t fails hpc => exact hstay t _ trivial
  | handled t event events fails io hpc hrun =>
    obtain ⟨-, b, hcommits⟩ := handleEvent_ok h.consistent hrun
    have hcreated := hcommits.table.2.1
    exact ⟨h.move hconsistent (h.tabled.commits hcommits) (le_of_eq hcreated.symm) trivial,
      le_of_eq hcreated.symm⟩
  | failed t event events fails a hpc hrun => exact ⟨⟨h.consistent, h.tabled, h.pc⟩, le_rfl⟩
  | closed fd =>
    exact ⟨⟨h.consistent, ⟨h.tabled.fdContexts, h.tabled.fd, h.tabled.size⟩, h.pc⟩, le_rfl⟩

theorem tableInv_init : init.TableInv := ⟨new_consistent, new_tabled, fun _ => trivial⟩

/-- **Run lemma.** -/
theorem TableInv.run {as : List Step} (h : s.TableInv)
    (hgrows : Transition.StepsMeet System.next Grows s as)
    (hrun : Transition.run System.next s as = some s') :
    s'.TableInv ∧ s.io.created ≤ s'.io.created :=
  Transition.invariant_of_stepsMeet (fun s' => s'.TableInv ∧ s.io.created ≤ s'.io.created)
    (fun _ _ _ hinv hok hnext =>
      have hstep := hinv.1.next hok hnext
      ⟨hstep.1, le_trans hinv.2 hstep.2⟩)
    ⟨h, le_rfl⟩ hgrows hrun

/-- **The table only grows** in every run in which no resize asks for less than the table has: from
any state of the run to any later one the table keeps its slots, every context stays in the slot
of its descriptor, and a call on `fd` holds the context that the slot had from the beginning. -/
theorem table_grows_of_run {as bs : List Step}
    (hgrows : Transition.StepsMeet next Grows init (as ++ bs))
    (h₁ : Transition.run next init as = some s) (h₂ : Transition.run next s bs = some s') :
    s.io.fdContexts <+: s'.io.fdContexts ∧
      (∀ p < s'.io.created, s'.io.fdContexts[(s'.io.mem p).fd]? = some p) ∧
      ∀ t ctx fd c, s'.pc t = .holding ctx fd c →
        s'.io.fdContexts[fd]? = some ctx ∧
          ∀ ctx₀, s.io.fdContexts[fd]? = some ctx₀ → ctx₀ = ctx := by
  have hinv := (tableInv_init.run hgrows.of_append h₁).1
  obtain ⟨hinv', hcreated⟩ := hinv.run (hgrows.after h₁) h₂
  refine ⟨?_, fun p hp => ?_, fun t ctx fd c hpc => ?_⟩
  · rw [hinv.tabled.fdContexts, hinv'.tabled.fdContexts, ← Nat.add_sub_cancel' hcreated,
      List.range_add]
    exact List.prefix_append _ _
  · rw [hinv'.tabled.fd p hp]
    exact hinv'.tabled.getElem?.mpr ⟨rfl, hp⟩
  · have hholding := hinv'.pc t
    rw [hpc] at hholding
    refine ⟨hinv'.tabled.getElem?.mpr hholding, fun ctx₀ hctx₀ => ?_⟩
    rw [(hinv.tabled.getElem?.mp hctx₀).1, hholding.1]

/-- Two threads pass the length test with descriptors 32 and 48; the second grows the table to 72
slots and registers an event. -/
def twoGrowers : List Step :=
  [.call 0 32 (.addEvent .READ none 0 1), .call 1 48 (.addEvent .READ none 0 2), .grow 1,
    .critical 1 false]

/-- The first thread then shrinks the table to 48 slots: the context of descriptor 48 and its
registered event are out of the table. -/
theorem table_shrinks :
    ∃ s₁ s₂, Transition.run next init twoGrowers = some s₁ ∧
      Transition.run next s₁ [.grow 0] = some s₂ ∧
      s₁.io.fdContexts.length = 72 ∧ s₂.io.fdContexts.length = 48 ∧
      s₁.io.fdContexts[48]? = some 48 ∧ s₂.io.fdContexts[48]? = none ∧
      (s₂.io.mem 48).events.test .READ = true :=
  ⟨_, _, rfl, rfl, rfl, rfl, rfl, rfl, rfl⟩

/-- In the other order both threads grow the table. -/
theorem table_grows_of_run_ordered :
    ∃ s₁ s₂, Transition.run next init
        [.call 0 32 (.addEvent .READ none 0 1), .call 1 48 (.addEvent .READ none 0 2), .grow 0] =
          some s₁ ∧
      Transition.run next s₁ [.grow 1] = some s₂ ∧ s₁.io.fdContexts <+: s₂.io.fdContexts := by
  have hgrow {s : System} {t fd : ℕ} {c : Call} (hpc : s.pc t = .growing fd c)
      (hle : s.io.fdContexts.length ≤ growTarget fd) : Grows s (.grow t) := by
    intro fd' c' hpc'
    obtain ⟨rfl, -⟩ := Pc.growing.inj (hpc.symm.trans hpc')
    exact hle
  refine ⟨_, _, rfl, rfl, (@table_grows_of_run _ _
    [.call 0 32 (.addEvent .READ none 0 1), .call 1 48 (.addEvent .READ none 0 2), .grow 0]
    [.grow 1] ?_ rfl rfl).1⟩
  refine .cons rfl trivial (.cons rfl trivial (.cons rfl ?_ (.cons rfl ?_ trivial)))
  · exact hgrow rfl (by decide)
  · exact hgrow rfl (by decide)

end System

end Muhui.IOManager
