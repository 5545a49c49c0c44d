/-
  Scanners that are fed in several reads.

  The state of the automaton survives from one read to the next, the registers in which the actions
  remember positions do not: they hold offsets into the current read and are reset at its
  beginning.  `uses` says which registers an action reads and `renew` which are live behind it,
  given those that were live before.  A read is `Intact` when every action only reads registers
  that were set in the same read; `scan_inside` and `scan_last` then turn a scan of the whole input
  into scans of the reads, for any relation `R` that the actions keep.  `R p live s₁ s₂` relates
  the data `s₁` in a read at offset `p` with the data `s₂` of the scan of the whole.  When the scan
  of the whole is known to end in `good` data and no action makes bad data good, `R` only has to be
  kept for good data.
-/
import Muhui.Scanner.Basic

namespace Muhui.Scanner

variable {α σ ρ : Type} [DecidableEq ρ]

section Intact

variable (A : Automaton α) (stops : α → Bool) (uses : α → List ρ) (renew : α → List ρ → List ρ)

/-- The actions of one byte only read registers that are live. -/
def keepsActions : List ρ → List α → Bool
  | _, [] => true
  | live, a :: as => (uses a).all (· ∈ live) && keepsActions (renew a live) as

/-- The registers that are live behind the actions of one byte. -/
def liveAfter (live : List ρ) (as : List α) : List ρ :=
  as.foldl (fun live a => renew a live) live

/-- Up to the byte that stops the scanner, every action only reads registers that were set in this
read. -/
def Intact : A.State → List ρ → List UInt8 → Bool
  | _, _, [] => true
  | q, live, b :: bs =>
    keepsActions uses renew live (A.next q b).2 &&
      ((A.next q b).2.any stops || Intact (A.next q b).1 (liveAfter renew live (A.next q b).2) bs)

end Intact

variable {A : Automaton α} {stops : α → Bool} {uses : α → List ρ} {renew : α → List ρ → List ρ}
variable {exec₁ exec₂ : ℕ → α → σ → Option σ} {R : ℕ → List ρ → σ → σ → Prop}
variable {good : σ → Prop} {text : List UInt8} {base : ℕ}

/-- What is asked of the relation for a read whose first `n` bytes stand at `base` in `text`. -/
structure ReadRule (A : Automaton α) (stops : α → Bool) (uses : α → List ρ)
    (renew : α → List ρ → List ρ) (exec₁ exec₂ : ℕ → α → σ → Option σ)
    (R : ℕ → List ρ → σ → σ → Prop) (good : σ → Prop) (text : List UInt8) (base n : ℕ) : Prop where
  final : ∀ q b, A.isFinal (A.next q b).1 = true → (A.next q b).2.any stops = true
  back : ∀ p a s s', exec₂ p a s = some s' → good s' → good s
  mono : ∀ p live s₁ s₂, R p live s₁ s₂ → R (p + 1) live s₁ s₂
  act : ∀ p b a live s₁ s₂ s₂', p < n → text[base + p]? = some b →
    a ∈ (A.next (A.after A.start (text.take (base + p))) b).2 → (∀ r ∈ uses a, r ∈ live) →
    R p live s₁ s₂ → exec₂ (base + p) a s₂ = some s₂' → good s₂' →
    ∃ s₁', exec₁ p a s₁ = some s₁' ∧ R p (renew a live) s₁' s₂'

variable {n : ℕ}

/-- The actions of one byte. -/
theorem ReadRule.runActions (h : ReadRule A stops uses renew exec₁ exec₂ R good text base n)
    {p : ℕ} {b : UInt8} {as : List α} {live : List ρ} {s₁ s₂ s₂' : σ} (hp : p < n)
    (hb : text[base + p]? = some b)
    (has : ∀ a ∈ as, a ∈ (A.next (A.after A.start (text.take (base + p))) b).2)
    (hkeeps : keepsActions uses renew live as = true) (hR : R p live s₁ s₂)
    (hrun : Scanner.runActions exec₂ (base + p) as s₂ = some s₂') (hgood : good s₂') :
    ∃ s₁', Scanner.runActions exec₁ p as s₁ = some s₁' ∧
      R p (liveAfter renew live as) s₁' s₂' := by
  induction as generalizing live s₁ s₂ with
  | nil =>
    obtain rfl : s₂ = s₂' := by simpa using hrun
    exact ⟨s₁, rfl, hR⟩
  | cons a as ih =>
    obtain ⟨t₂, ht₂, hrun⟩ := runActions_cons_eq_some.mp hrun
    rw [keepsActions, Bool.and_eq_true, List.all_eq_true] at hkeeps
    obtain ⟨t₁, ht₁, hR'⟩ := h.act p b a live s₁ s₂ t₂ hp hb (has a List.mem_cons_self)
      (fun r hr => by simpa using hkeeps.1 r hr) hR ht₂
      (runActions_induction_back h.back hrun hgood)
    obtain ⟨s₁', hs₁', hR''⟩ :=
      ih (fun a' ha' => has a' (List.mem_cons_of_mem _ ha')) hkeeps.2 hR' hrun
    exact ⟨s₁', runActions_cons_eq_some.mpr ⟨t₁, ht₁, hs₁'⟩, hR''⟩

theorem take_succ_of_drop {p : ℕ} {b : UInt8} {rest : List UInt8} (h : text.drop p = b :: rest) :
    text[p]? = some b ∧ text.take (p + 1) = text.take p ++ [b] ∧ text.drop (p + 1) = rest ∧
      text.length = p + 1 + rest.length := by
  have hget : text[p]? = some b := by
    rw [← List.head?_drop, h]
    rfl
  refine ⟨hget, ?_, ?_, ?_⟩
  · rw [List.take_add_one, hget]
    rfl
  · rw [← List.drop_drop, h]
    rfl
  · have hlen := congrArg List.length h
    rw [List.length_drop, List.length_cons] at hlen
    omega

/-- A read that ends before the scan of the whole does: it consumes all of the read without entering
a final state, and the scan of the whole goes on behind it. -/
theorem ReadRule.scan_inside (h : ReadRule A stops uses renew exec₁ exec₂ R good text base n)
    {bs tail : List UInt8} {p : ℕ} {live : List ρ} {q q'' : A.State} {s₁ s₂ s₂'' : σ}
    (htail : tail ≠ []) (hn : p + bs.length ≤ n)
    (hq : q = A.after A.start (text.take (base + p)))
    (hdrop : text.drop (base + p) = bs ++ tail)
    (hintact : Intact A stops uses renew q live bs = true) (hR : R p live s₁ s₂)
    (hscan : scan A exec₂ stops (bs ++ tail) (base + p) q s₂ = some (text.length, q'', s₂''))
    (hgood : good s₂'') :
    ∃ s₁' s₂' live', scan A exec₁ stops bs p q s₁ = some (p + bs.length, A.after q bs, s₁') ∧
      R (p + bs.length) live' s₁' s₂' ∧
      scan A exec₂ stops tail (base + (p + bs.length)) (A.after q bs) s₂' =
        some (text.length, q'', s₂'') ∧
      (A.isFinal q = false → A.isFinal (A.after q bs) = false) := by
  induction bs generalizing p live q s₁ s₂ with
  | nil => exact ⟨s₁, s₂, live, rfl, hR, hscan, id⟩
  | cons b bs ih =>
    rw [List.length_cons] at hn
    rw [List.cons_append] at hdrop hscan
    obtain ⟨hb, htake, hdrop', hlen⟩ := take_succ_of_drop hdrop
    rw [hlen] at hscan
    obtain ⟨hne, hnext, s₂', hrun, hstop | ⟨hstop, hscan'⟩⟩ := scan_all_cons hscan
    · -- the scan of the whole would end inside the read
      exact absurd (List.append_eq_nil_iff.mp hstop.2.1).2 htail
    rw [Intact, Bool.and_eq_true, hstop, Bool.false_or] at hintact
    obtain ⟨s₁', hrun₁, hR'⟩ := h.runActions (by omega) hb (fun a ha => hq ▸ ha) hintact.1 hR hrun
      (scan_induction_back h.back hscan' hgood)
    have hq' : (A.next q b).1 = A.after A.start (text.take (base + (p + 1))) := by
      rw [← Nat.add_assoc, htake, A.after_append, ← hq]
      rfl
    have hnotFinal : A.isFinal (A.next q b).1 = false := by
      rw [← Bool.not_eq_true]
      intro hfin
      rw [h.final q b hfin] at hstop
      exact Bool.false_ne_true hstop.symm
    rw [← hlen, Nat.add_assoc] at hscan'
    obtain ⟨t₁, t₂, live', h₁, hRt, h₂, hfin⟩ :=
      ih (by omega) hq' hdrop' hintact.2 (h.mono _ _ _ _ hR') hscan'
    have hpos : p + (bs.length + 1) = p + 1 + bs.length := by omega
    rw [List.length_cons, hpos]
    exact ⟨t₁, t₂, live', (scan_cons hne hrun₁ hnext hstop bs).trans h₁, hRt, h₂,
      fun _ => hfin hnotFinal⟩

/-- The read in which the scan of the whole ends: it stops at the same byte, whatever follows in
the read. -/
theorem ReadRule.scan_last (h : ReadRule A stops uses renew exec₁ exec₂ R good text base n)
    {bs : List UInt8} {p : ℕ} {live : List ρ} {q q'' : A.State} {s₁ s₂ s₂'' : σ} (hbs : bs ≠ [])
    (hn : p + bs.length ≤ n) (hq : q = A.after A.start (text.take (base + p)))
    (hdrop : text.drop (base + p) = bs)
    (hintact : Intact A stops uses renew q live bs = true) (hR : R p live s₁ s₂)
    (hscan : scan A exec₂ stops bs (base + p) q s₂ = some (text.length, q'', s₂''))
    (hq'' : A.isFinal q'' = true) (hgood : good s₂'') (rest : List UInt8) :
    ∃ s₁' p' live', scan A exec₁ stops (bs ++ rest) p q s₁ = some (p + bs.length, q'', s₁') ∧
      R p' live' s₁' s₂'' := by
  induction bs generalizing p live q s₁ s₂ with
  | nil => exact absurd rfl hbs
  | cons b bs ih =>
    rw [List.length_cons] at hn
    obtain ⟨hb, htake, hdrop', hlen⟩ := take_succ_of_drop hdrop
    rw [hlen] at hscan
    obtain ⟨hne, hnext, s₂', hrun, hcases⟩ := scan_all_cons hscan
    rw [Intact, Bool.and_eq_true] at hintact
    have hgood' : good s₂' := by
      rcases hcases with ⟨-, -, -, rfl⟩ | ⟨-, hscan'⟩
      · exact hgood
      · exact scan_induction_back h.back hscan' hgood
    obtain ⟨s₁', hrun₁, hR'⟩ :=
      h.runActions (by omega) hb (fun a ha => hq ▸ ha) hintact.1 hR hrun hgood'
    rcases hcases with ⟨hstop, rfl, rfl, rfl⟩ | ⟨hstop, hscan'⟩
    · exact ⟨s₁', p, _, scan_stop hne hrun₁ hnext hstop _, hR'⟩
    · have hbs' : bs ≠ [] := by
        rintro rfl
        -- the last byte enters a final state, so it stops the scanner
        simp only [scan, List.length_nil, Option.some.injEq, Prod.mk.injEq] at hscan'
        rw [← hscan'.2.1] at hq''
        rw [h.final q b hq''] at hstop
        exact Bool.false_ne_true hstop.symm
      rw [hstop, Bool.false_or] at hintact
      have hq' : (A.next q b).1 = A.after A.start (text.take (base + (p + 1))) := by
        rw [← Nat.add_assoc, htake, A.after_append, ← hq]
        rfl
      rw [← hlen, Nat.add_assoc] at hscan'
      obtain ⟨t₁, p', live', h₁, hRt⟩ :=
        ih hbs' (by omega) hq' hdrop' hintact.2 (h.mono _ _ _ _ hR') hscan'
      have hpos : p + (bs.length + 1) = p + 1 + bs.length := by omega
      rw [List.length_cons, hpos]
      exact ⟨t₁, p', live', (scan_cons hne hrun₁ hnext hstop _).trans h₁, hRt⟩

end Muhui.Scanner
