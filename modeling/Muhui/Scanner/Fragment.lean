/-
  The part of a generated scanner that some inputs stay in.

  A `Fragment` is a small automaton whose transitions offer alternative action lists.  A table
  `Follows` it when its states can be related to the places of the fragment so that every move of
  the fragment is one of the table, up to actions that are only flags.  What the table does on an
  input of the fragment is then read off the fragment, with the Hoare-style judgement `Moves`: from
  a state at the place `f` with data in `P`, the scan of `bs` arrives at the place `f'` with data in
  `Q`, whatever follows.
-/
import Muhui.Scanner.Basic

namespace Muhui.Scanner

/-- A part of a scanner: places, moves with the action lists a table may attach to them, and the
place behind a byte that stops the scanner. -/
structure Fragment (α : Type) where
  Place : Type
  start : Place
  final : Place
  step : Place → UInt8 → Option (Place × List (List α))

variable {α σ : Type}

/-- The place behind `bs` when none of its moves has an action. -/
def Fragment.walk (F : Fragment α) : F.Place → List UInt8 → Option F.Place
  | f, [] => some f
  | f, b :: bs =>
    match F.step f b with
    | some (f', [[]]) => F.walk f' bs
    | _ => none

theorem Fragment.walk_cons_eq_some {F : Fragment α} {f f' : F.Place} {b : UInt8}
    {bs : List UInt8} :
    F.walk f (b :: bs) = some f' ↔ ∃ g, F.step f b = some (g, [[]]) ∧ F.walk g bs = some f' := by
  rw [Fragment.walk]
  constructor
  · intro h
    split at h
    · exact ⟨_, by assumption, h⟩
    · cases h
  · rintro ⟨g, hstep, h⟩
    rw [hstep]
    exact h

/-- Bytes that stay at a place. -/
theorem Fragment.walk_loop {F : Fragment α} {f : F.Place} {bs : List UInt8}
    (h : ∀ b ∈ bs, F.step f b = some (f, [[]])) : F.walk f bs = some f := by
  induction bs with
  | nil => rfl
  | cons b bs ih =>
    exact walk_cons_eq_some.mpr
      ⟨f, h b List.mem_cons_self, ih fun b' hb' => h b' (List.mem_cons_of_mem _ hb')⟩

/-- The table moves as the fragment does; the actions in `flag` are not counted. -/
structure Follows (A : Automaton α) (F : Fragment α) (flag : α → Bool)
    (rel : F.Place → A.State → Prop) : Prop where
  start : rel F.start A.start
  alive : ∀ f q, rel f q → q ≠ A.error
  final : ∀ q, rel F.final q → A.isFinal q = true
  step : ∀ f q b f' opts, rel f q → F.step f b = some (f', opts) →
    rel f' (A.next q b).1 ∧ (A.next q b).2.filter (fun a => !flag a) ∈ opts

/-- The fragment itself as a table; every other byte is an error. -/
@[reducible] def Fragment.complete (F : Fragment α) [DecidableEq F.Place] : Automaton α where
  State := Option F.Place
  start := some F.start
  error := none
  isFinal q := decide (q = some F.final)
  next
    | none, _ => (none, [])
    | some f, b =>
      match F.step f b with
      | none => (none, [])
      | some (f', opts) => (some f', opts.headD [])

theorem Fragment.complete_next {F : Fragment α} [DecidableEq F.Place] {f f' : F.Place} {b : UInt8}
    {opts : List (List α)} (h : F.step f b = some (f', opts)) :
    F.complete.next (some f) b = (some f', opts.headD []) := by
  show (match F.step f b with
    | none => (none, [])
    | some (f', opts) => (some f', opts.headD [])) = _
  rw [h]

/-- The only moves of the completed fragment are those of the fragment. -/
theorem Fragment.of_complete_next {F : Fragment α} [DecidableEq F.Place] {q : F.complete.State}
    {b : UInt8} {g : F.Place} (h : (F.complete.next q b).1 = some g) :
    ∃ f opts, q = some f ∧ F.step f b = some (g, opts) ∧
      (F.complete.next q b).2 = opts.headD [] := by
  cases q with
  | none => cases h
  | some f =>
    cases hstep : F.step f b with
    | none =>
      have hnext : F.complete.next (some f) b = (none, []) := by
        show (match F.step f b with
          | none => (none, [])
          | some (f', opts) => (some f', opts.headD [])) = _
        rw [hstep]
      rw [hnext] at h
      cases h
    | some r =>
      obtain ⟨f', opts⟩ := r
      rw [Fragment.complete_next hstep] at h ⊢
      obtain rfl : f' = g := Option.some.inj h
      exact ⟨f, opts, rfl, hstep, rfl⟩

/-- A byte that is not a move does nothing. -/
theorem Fragment.complete_next_error {F : Fragment α} [DecidableEq F.Place] {q : F.complete.State}
    {b : UInt8} (h : (F.complete.next q b).1 = none) : (F.complete.next q b).2 = [] := by
  cases q with
  | none => rfl
  | some f =>
    cases hstep : F.step f b with
    | none =>
      show (match F.step f b with
        | none => ((none, []) : Option F.Place × List α)
        | some (f', opts) => (some f', opts.headD [])).2 = _
      rw [hstep]
    | some r =>
      rw [Fragment.complete_next hstep] at h
      cases h

/-- The completed fragment follows the fragment. -/
theorem Fragment.follows_complete {F : Fragment α} [DecidableEq F.Place] {flag : α → Bool}
    (hopts : ∀ f b f' opts, F.step f b = some (f', opts) →
      opts.headD [] ∈ opts ∧ ∀ a ∈ opts.headD [], flag a = false) :
    Follows F.complete F flag (fun f q => q = some f) where
  start := rfl
  alive := by
    rintro f q rfl
    exact Option.some_ne_none f
  final := by
    rintro q rfl
    exact decide_eq_true rfl
  step := by
    rintro f q b f' opts rfl hstep
    obtain ⟨hmem, hflag⟩ := hopts f b f' opts hstep
    rw [Fragment.complete_next hstep]
    refine ⟨rfl, ?_⟩
    rw [List.filter_eq_self.mpr fun a ha => by rw [hflag a ha]; rfl]
    exact hmem

/-! ### Moving through a fragment -/

section Moves

variable {A : Automaton α} {F : Fragment α} {flag : α → Bool} {rel : F.Place → A.State → Prop}
variable {exec : ℕ → α → σ → Option σ} {stops : α → Bool}

variable (A F rel exec stops) in
/-- From any state at `f` with data in `P`, the scan of `bs` at position `p` arrives at `f'` with
data in `Q` and goes on with what follows. -/
def Moves (p : ℕ) (f : F.Place) (P : σ → Prop) (bs : List UInt8) (f' : F.Place) (Q : σ → Prop) :
    Prop :=
  ∀ q s, rel f q → P s → ∃ q' s', rel f' q' ∧ Q s' ∧
    ∀ rest, scan A exec stops (bs ++ rest) p q s = scan A exec stops rest (p + bs.length) q' s'

variable {p p' : ℕ} {f f' f'' : F.Place} {P P' Q Q' : σ → Prop} {bs bs' : List UInt8}

theorem Moves.nil (h : ∀ s, P s → Q s) : Moves A F rel exec stops p f P [] f Q :=
  fun q s hq hs => ⟨q, s, hq, h s hs, fun _ => rfl⟩

/-- Sequencing. -/
theorem Moves.append (h : Moves A F rel exec stops p f P bs f' Q) (hp : p' = p + bs.length)
    (h' : Moves A F rel exec stops p' f' Q bs' f'' Q') :
    Moves A F rel exec stops p f P (bs ++ bs') f'' Q' := by
  intro q s hq hs
  obtain ⟨q', s', hq', hs', hscan⟩ := h q s hq hs
  obtain ⟨q'', s'', hq'', hs'', hscan'⟩ := h' q' s' hq' hs'
  refine ⟨q'', s'', hq'', hs'', fun rest => ?_⟩
  rw [List.append_assoc, hscan, ← hp, hscan', hp, List.length_append, Nat.add_assoc]

/-- Flags can be left out of an action list. -/
theorem runActions_filter (hflag : ∀ p a s, flag a = true → exec p a s = some s) (as : List α)
    (s : σ) : runActions exec p (as.filter fun a => !flag a) s = runActions exec p as s := by
  induction as generalizing s with
  | nil => rfl
  | cons a as ih =>
    by_cases ha : flag a = true
    · rw [List.filter_cons_of_neg (by simp [ha]), ih, runActions, hflag p a s ha]
      rfl
    · rw [List.filter_cons_of_pos (by simp [ha]), runActions, runActions]
      congr 1
      funext s'
      exact ih s'

theorem any_filter_stops (hstops : ∀ a, flag a = true → stops a = false) (as : List α) :
    (as.filter fun a => !flag a).any stops = as.any stops := by
  rw [List.any_filter]
  congr 1
  funext a
  cases ha : flag a with
  | true => simp [hstops a ha]
  | false => simp

/-- One move of the fragment: each of its action lists has to lead from `P` to `Q`. -/
theorem Follows.single (h : Follows A F flag rel)
    (hflag : ∀ p a s, flag a = true → exec p a s = some s)
    (hstops : ∀ a, flag a = true → stops a = false) {b : UInt8} {opts : List (List α)}
    (hstep : F.step f b = some (f', opts))
    (hacts : ∀ as ∈ opts, as.any stops = false ∧
      ∀ s, P s → ∃ s', runActions exec p as s = some s' ∧ Q s') :
    Moves A F rel exec stops p f P [b] f' Q := by
  intro q s hq hs
  obtain ⟨hrel, hmem⟩ := h.step f q b f' opts hq hstep
  obtain ⟨hnostop, hrun⟩ := hacts _ hmem
  obtain ⟨s', hs', hQ⟩ := hrun s hs
  rw [runActions_filter hflag] at hs'
  rw [any_filter_stops hstops] at hnostop
  exact ⟨_, s', hrel, hQ,
    fun rest => scan_cons (h.alive f q hq) hs' (h.alive _ _ hrel) hnostop rest⟩

/-- Bytes that stay at a place and whose actions keep a property. -/
theorem Follows.loop (h : Follows A F flag rel)
    (hflag : ∀ p a s, flag a = true → exec p a s = some s)
    (hstops : ∀ a, flag a = true → stops a = false) {acts : List α}
    (hstep : ∀ b ∈ bs, F.step f b = some (f, [acts])) (hacts : acts.any stops = false)
    (hrun : ∀ p s, P s → ∃ s', runActions exec p acts s = some s' ∧ P s') :
    Moves A F rel exec stops p f P bs f P := by
  induction bs generalizing p with
  | nil => exact .nil fun s hs => hs
  | cons b bs ih =>
    show Moves A F rel exec stops p f P ([b] ++ bs) f P
    refine Moves.append (Q := P) ?_ rfl
      (ih fun b' hb' => hstep b' (List.mem_cons_of_mem _ hb'))
    refine h.single hflag hstops (hstep b List.mem_cons_self) fun as has => ?_
    obtain rfl := List.mem_singleton.mp has
    exact ⟨hacts, hrun p⟩

/-- Moves without actions. -/
theorem Follows.walk (h : Follows A F flag rel)
    (hflag : ∀ p a s, flag a = true → exec p a s = some s)
    (hstops : ∀ a, flag a = true → stops a = false) (hwalk : F.walk f bs = some f') :
    Moves A F rel exec stops p f P bs f' P := by
  induction bs generalizing p f with
  | nil =>
    obtain rfl : f = f' := Option.some.inj hwalk
    exact .nil fun s hs => hs
  | cons b bs ih =>
    obtain ⟨g, hstep, hwalk⟩ := Fragment.walk_cons_eq_some.mp hwalk
    show Moves A F rel exec stops p f P ([b] ++ bs) f' P
    refine Moves.append (Q := P) ?_ rfl (ih hwalk)
    refine h.single hflag hstops hstep fun as has => ?_
    obtain rfl := List.mem_singleton.mp has
    exact ⟨rfl, fun s hs => ⟨s, rfl, hs⟩⟩

/-- The move that stops the scanner, behind a text that is moved through. -/
theorem Follows.scan_of_moves (h : Follows A F flag rel)
    (hflag : ∀ p a s, flag a = true → exec p a s = some s)
    (hstops : ∀ a, flag a = true → stops a = false) {b : UInt8} {opts : List (List α)}
    (s₀ : σ) (Q' : σ → Prop) (hmoves : Moves A F rel exec stops 0 F.start P bs f Q) (hs₀ : P s₀)
    (hstep : F.step f b = some (F.final, opts))
    (hacts : ∀ as ∈ opts, as.any stops = true ∧
      ∀ s, Q s → ∃ s', runActions exec bs.length as s = some s' ∧ Q' s') :
    ∃ q s, scan A exec stops (bs ++ [b]) 0 A.start s₀ = some (bs.length + 1, q, s) ∧
      q ≠ A.error ∧ A.isFinal q = true ∧ Q' s ∧
      ∀ rest, scan A exec stops (bs ++ [b] ++ rest) 0 A.start s₀ = some (bs.length + 1, q, s) := by
  obtain ⟨q, s, hq, hs, hscan⟩ := hmoves A.start s₀ h.start hs₀
  obtain ⟨hrel, hmem⟩ := h.step f q b F.final opts hq hstep
  obtain ⟨hstop, hrun⟩ := hacts _ hmem
  obtain ⟨s', hs', hQ'⟩ := hrun s hs
  rw [runActions_filter hflag] at hs'
  rw [any_filter_stops hstops] at hstop
  have hscan' (rest : List UInt8) : scan A exec stops (bs ++ [b] ++ rest) 0 A.start s₀ =
      some (bs.length + 1, (A.next q b).1, s') := by
    rw [List.append_assoc, hscan, Nat.zero_add]
    exact scan_stop (h.alive f q hq) hs' (h.alive _ _ hrel) hstop rest
  have hscan₀ := hscan' []
  rw [List.append_nil] at hscan₀
  exact ⟨_, s', hscan₀, h.alive _ _ hrel, h.final _ hrel, hQ', hscan'⟩

end Moves

end Muhui.Scanner
