/-
  `FdManager` as a finite map from descriptors to contexts, for calls one after another.
-/
import Muhui.Descriptors.FdManager

namespace Muhui.Descriptors

/-! ### The calls -/

inductive Call
  | get (fd : ℤ) (auto_create : Bool)
  | del (fd : ℤ)
  deriving DecidableEq

namespace FdManager

/-- `FdManager::get`, both sections. -/
def get (m : FdManager) (fd : ℤ) (auto_create : Bool) : Option (FdManager × Option ℕ) :=
  (m.lookup fd auto_create).bind fun
    | .returns ctx => some (m, ctx)
    | .misses => (m.create fd).map fun r => (r.1, some r.2)

/-- The manager after a call, and what the call returns; `del` returns nothing. -/
def call (m : FdManager) : Call → Option (FdManager × Option ℕ)
  | .get fd auto_create => m.get fd auto_create
  | .del fd => (m.del fd).map fun m' => (m', none)

end FdManager

/-! ### The map -/

/-- The context of each descriptor, and the number of contexts that were made. -/
structure Contexts where
  ctx : ℤ → Option ℕ
  made : ℕ

namespace Contexts

def init : Contexts := { ctx := fun _ => none, made := 0 }

/-- Only `get(fd, true)` on an absent descriptor makes a context, and only `del` removes one. -/
def call (c : Contexts) : Call → Contexts × Option ℕ
  | .get fd auto_create =>
    if (c.ctx fd).isSome || !auto_create then (c, c.ctx fd)
    else ({ ctx := Function.update c.ctx fd (some c.made), made := c.made + 1 }, some c.made)
  | .del fd => ({ c with ctx := Function.update c.ctx fd none }, none)

end Contexts

/-! ### The refinement -/

/-- The manager stands for the map. -/
structure Represents (m : FdManager) (c : Contexts) : Prop where
  sized : m.Sized
  entry : ∀ fd, m.entry fd = c.ctx fd
  made : m.made = c.made

/-- The descriptor is neither negative nor the size of the vector; when the vector grows for it, its
size stays an `int`. -/
def InVector (m : FdManager) : Call → Prop
  | .get fd auto_create =>
    0 ≤ fd ∧ fd ≠ m.datas.length ∧
      (auto_create = true → (m.datas.length : ℤ) < fd → 3 * fd / 2 < 2 ^ 31)
  | .del fd => 0 ≤ fd ∧ fd ≠ m.datas.length

instance (m : FdManager) : ∀ c, Decidable (InVector m c)
  | .get _ _ => inferInstanceAs (Decidable (_ ∧ _ ∧ (_ → _ → _)))
  | .del _ => inferInstanceAs (Decidable (_ ∧ _))

theorem represents_init : Represents .init .init := by
  refine ⟨FdManager.sized_init, fun fd => ?_, rfl⟩
  have hempty : ∀ e ∈ FdManager.init.datas, e = none := by decide
  show (FdManager.init.slot fd).join = none
  cases hslot : FdManager.init.slot fd with
  | none => rfl
  | some e =>
    have hmem : e ∈ FdManager.init.datas := by
      unfold FdManager.slot at hslot
      split_ifs at hslot
      exact List.mem_of_getElem? hslot
    rw [hempty e hmem]
    rfl

variable {m : FdManager} {c : Contexts}

/-- **Step lemma.** A call inside the vector returns what the map returns. -/
theorem Represents.call (h : Represents m c) {a : Call} (ha : InVector m a) :
    ∃ m', m.call a = some (m', (c.call a).2) ∧ Represents m' (c.call a).1 := by
  cases a with
  | get fd auto_create =>
    obtain ⟨h0, hsize, hgrow⟩ := ha
    have hlookup := FdManager.lookup_eq h.sized h0 hsize auto_create
    show ∃ m', (m.lookup fd auto_create).bind _ = _ ∧ _
    rw [hlookup, h.entry, Contexts.call]
    by_cases hfound : ((c.ctx fd).isSome || !auto_create) = true
    · rw [if_pos hfound, if_pos hfound]
      exact ⟨m, rfl, h⟩
    -- nothing is there, so a context is made, under the number that the map expects
    · rw [if_neg hfound, if_neg hfound, ← h.made]
      have hauto : auto_create = true := by
        cases auto_create <;> simp_all
      obtain ⟨m', hcreate, hsized, hmade, hentry⟩ :=
        FdManager.create_eq h.sized h0 fun hle => hgrow hauto (lt_of_le_of_ne hle hsize.symm)
      refine ⟨m', ?_, hsized, fun fd' => ?_, hmade⟩
      · simp only [Option.bind_some, hcreate, Option.map_some]
      · rw [hentry, h.entry]
        exact (Function.update_apply c.ctx fd _ fd').symm
  | del fd =>
    obtain ⟨m', hdel, hlength, hmade, hentry⟩ := FdManager.del_eq h.sized ha.1 ha.2
    refine ⟨m', ?_, ⟨?_, ?_⟩, fun fd' => ?_, hmade.trans h.made⟩
    · show (m.del fd).map _ = _
      rw [hdel]
      rfl
    · rw [hlength]
      exact h.sized.initial
    · rw [hlength]
      exact h.sized.int
    · rw [hentry, h.entry]
      exact (Function.update_apply c.ctx fd _ fd').symm

/-! ### Histories -/

/-- The calls one after another, with what they return; `none` is an access outside the vector. -/
def FdManager.calls : FdManager → List Call → Option (FdManager × List (Option ℕ))
  | m, [] => some (m, [])
  | m, a :: as =>
    (m.call a).bind fun r => (FdManager.calls r.1 as).map fun r' => (r'.1, r.2 :: r'.2)

def Contexts.calls : Contexts → List Call → Contexts × List (Option ℕ)
  | c, [] => (c, [])
  | c, a :: as =>
    let r := Contexts.calls (c.call a).1 as
    (r.1, (c.call a).2 :: r.2)

/-- Every call of the history is inside the vector it finds. -/
abbrev InVectors (m : FdManager) (as : List Call) : Prop :=
  Transition.StepsMeet (fun m a => (FdManager.call m a).map Prod.fst) InVector m as

theorem Represents.calls {as : List Call} (h : Represents m c) (has : InVectors m as) :
    ∃ m', m.calls as = some (m', (c.calls as).2) ∧ Represents m' (c.calls as).1 := by
  induction as generalizing m c with
  | nil => exact ⟨m, rfl, h⟩
  | cons a as ih =>
    obtain ⟨m₁, hcall, h₁⟩ := h.call has.1
    -- the condition on the other calls is about the manager after the first one
    have hrest : InVectors m₁ as := has.2 m₁ (by simp only [hcall, Option.map_some])
    obtain ⟨m', hcalls, h'⟩ := ih h₁ hrest
    refine ⟨m', ?_, h'⟩
    rw [FdManager.calls, hcall, Option.bind_some, hcalls]
    rfl

/-- For every history of calls inside the vector, no access leaves the vector, the calls return what
the map returns, and the entries are those of the map. -/
theorem contexts_of_calls {as : List Call} (has : InVectors .init as) :
    ∃ m, FdManager.init.calls as = some (m, (Contexts.init.calls as).2) ∧
      ∀ fd, m.entry fd = (Contexts.init.calls as).1.ctx fd := by
  obtain ⟨m, hcalls, hm⟩ := represents_init.calls has
  exact ⟨m, hcalls, hm.entry⟩

/-- A context is made, found, kept when the vector grows, and removed. -/
theorem contexts_of_growth :
    ∃ m, FdManager.init.calls [.get 3 true, .get 3 false, .get 70 true, .get 3 true, .del 3,
        .get 3 false] = some (m, [some 0, some 0, some 1, some 0, none, none]) ∧
      ∀ fd, m.entry fd = (Contexts.init.calls [.get 3 true, .get 3 false, .get 70 true, .get 3 true,
        .del 3, .get 3 false]).1.ctx fd :=
  contexts_of_calls (by decide +kernel)

/-- Asking for the descriptor of a socket that is not open reads outside the vector. -/
theorem not_calls_negative : FdManager.init.calls [.get (-1) false] = none := by
  decide +kernel

end Muhui.Descriptors
