/-
  The text of a 128-bit address (RFC 4291, 2.2).

  An address is eight groups of 16 bits.  Its text lists the groups in hexadecimal, with colons
  between them; the last two may be written as an IPv4 address; and one `::` may stand for one or
  more groups of zeros.  `Denotes t g` is this rule, `parseText` a parser for it, and
  `parseText_eq_some_iff` says that they agree, so a text denotes one address at most.
-/
import Mathlib.Algebra.Ring.Nat
import Mathlib.Data.List.Basic
import Mathlib.Data.Nat.Notation
import Mathlib.Tactic.Common

namespace Muhui.Rfc4291

/-! ### The rule -/

/-- The value of a hexadecimal digit of either case. -/
def hexDigit (c : Char) : Option ℕ :=
  if c.isDigit then some (c.toNat - 48)
  else if 'a' ≤ c ∧ c ≤ 'f' then some (c.toNat - 87)
  else if 'A' ≤ c ∧ c ≤ 'F' then some (c.toNat - 55)
  else none

/-- The value of hexadecimal digits behind digits of the value `v`. -/
def hexDigits (v : ℕ) : List Char → Option ℕ
  | [] => some v
  | c :: cs => (hexDigit c).bind fun d => hexDigits (16 * v + d) cs

/-- A group: one to four hexadecimal digits. -/
def hexGroup (cs : List Char) : Option ℕ :=
  if 1 ≤ cs.length ∧ cs.length ≤ 4 then hexDigits 0 cs else none

/-- A number up to 255 in decimal, without leading zeros. -/
def octet (cs : List Char) : Option ℕ :=
  if cs.all Char.isDigit ∧ 1 ≤ cs.length ∧ cs.length ≤ 3 ∧ (cs.length = 1 ∨ cs.head? ≠ some '0') ∧
      Nat.ofDigitChars 10 cs 0 ≤ 255 then
    some (Nat.ofDigitChars 10 cs 0)
  else none

/-- An IPv4 address, as the values of two groups. -/
def quad (cs : List Char) : Option (List ℕ) :=
  match (cs.splitOn '.').mapM octet with
  | some [a, b, c, d] => some [256 * a + b, 256 * c + d]
  | _ => none

/-- The values of groups, of which the last may be an IPv4 address. -/
def values : List (List Char) → Option (List ℕ)
  | [] => some []
  | [p] => ((hexGroup p).map fun v => [v]).or (quad p)
  | p :: q :: ps => (hexGroup p).bind fun v => (values (q :: ps)).map (v :: ·)

/-- Texts with colons between them. -/
def join (ps : List (List Char)) : List Char := [':'].intercalate ps

/-- The text denotes the address with these groups. -/
inductive Denotes : List Char → List ℕ → Prop
  | full {ps : List (List Char)} {vs : List ℕ} (hvs : values ps = some vs)
    (hlength : vs.length = 8) : Denotes (join ps) vs
  | compressed {ls rs : List (List Char)} {us vs : List ℕ} (hus : ls.mapM hexGroup = some us)
    (hvs : values rs = some vs) (hlength : us.length + vs.length < 8) :
    Denotes (join ls ++ ':' :: ':' :: join rs)
      (us ++ List.replicate (8 - (us.length + vs.length)) 0 ++ vs)

/-! ### A parser -/

/-- The texts before and behind the first `::`. -/
def splitDouble : List Char → Option (List Char × List Char)
  | [] => none
  | [_] => none
  | c :: d :: t =>
    if c = ':' ∧ d = ':' then some ([], t)
    else (splitDouble (d :: t)).map fun r => (c :: r.1, r.2)

/-- The texts between colons; there are none in the empty text. -/
def pieces (t : List Char) : List (List Char) := if t = [] then [] else t.splitOn ':'

def parseText (t : List Char) : Option (List ℕ) :=
  match splitDouble t with
  | none => (values (pieces t)).filter fun vs => vs.length = 8
  | some (l, r) =>
    ((pieces l).mapM hexGroup).bind fun us =>
      (values (pieces r)).bind fun vs =>
        if us.length + vs.length < 8 then
          some (us ++ List.replicate (8 - (us.length + vs.length)) 0 ++ vs)
        else none

/-! ### Pieces -/

/-- What stands between two colons. -/
def IsPiece (p : List Char) : Prop := p ≠ [] ∧ ':' ∉ p

theorem hexDigit_colon : hexDigit ':' = none := by decide

/-- A character that is no digit stands in no group. -/
theorem notMem_of_hexGroup {c : Char} (hc : hexDigit c = none) {p : List Char} {v : ℕ}
    (h : hexGroup p = some v) : c ∉ p := by
  have hdigits : ∀ (p : List Char) (u : ℕ), hexDigits u p = some v → c ∉ p := by
    intro p
    induction p with
    | nil => exact fun _ _ => List.not_mem_nil
    | cons d ds ih =>
      intro u hu hmem
      obtain ⟨x, hx, hds⟩ := Option.bind_eq_some_iff.mp hu
      rcases List.mem_cons.mp hmem with rfl | hmem
      · rw [hc] at hx
        cases hx
      · exact ih _ hds hmem
  unfold hexGroup at h
  split_ifs at h
  exact hdigits p 0 h

theorem isPiece_of_hexGroup {p : List Char} {v : ℕ} (h : hexGroup p = some v) : IsPiece p := by
  refine ⟨?_, notMem_of_hexGroup hexDigit_colon h⟩
  rintro rfl
  cases h

theorem exists_of_mapM {α β : Type*} {f : α → Option β} {l : List α} {ys : List β}
    (h : l.mapM f = some ys) : ∀ x ∈ l, ∃ y, f x = some y := by
  induction l generalizing ys with
  | nil => exact fun x hx => absurd hx List.not_mem_nil
  | cons a l ih =>
    rw [List.mapM_cons, Option.bind_eq_bind, Option.bind_eq_some_iff] at h
    obtain ⟨y, hy, h⟩ := h
    obtain ⟨ys', hys, -⟩ := Option.bind_eq_some_iff.mp h
    intro x hx
    rcases List.mem_cons.mp hx with rfl | hx
    · exact ⟨y, hy⟩
    · exact ih hys x hx

theorem mem_intercalate {α : Type*} {sep : List α} {ls : List (List α)} {a : α}
    (h : a ∈ sep.intercalate ls) : a ∈ sep ∨ ∃ l ∈ ls, a ∈ l := by
  induction ls with
  | nil => cases h
  | cons l ls ih =>
    cases ls with
    | nil =>
      rw [List.intercalate_singleton] at h
      exact Or.inr ⟨l, List.mem_cons_self, h⟩
    | cons l' ls =>
      rw [List.intercalate_cons_cons, List.mem_append, List.mem_append] at h
      rcases h with (h | h) | h
      · exact Or.inr ⟨l, List.mem_cons_self, h⟩
      · exact Or.inl h
      · refine (ih h).imp_right ?_
        rintro ⟨l'', hl, ha⟩
        exact ⟨l'', List.mem_cons_of_mem _ hl, ha⟩

theorem isPiece_of_quad {p : List Char} {vs : List ℕ} (h : quad p = some vs) : IsPiece p := by
  constructor
  · rintro rfl
    cases h
  · intro hmem
    have hoctets : ∃ os, (p.splitOn '.').mapM octet = some os := by
      unfold quad at h
      split at h
      next a b c d hoctets => exact ⟨_, hoctets⟩
      next => cases h
    obtain ⟨os, hoctets⟩ := hoctets
    have hjoin : ['.'].intercalate (p.splitOn '.') = p := List.intercalate_splitOn '.'
    rw [← hjoin] at hmem
    rcases mem_intercalate hmem with hdot | ⟨l, hl, hcolon⟩
    · exact absurd hdot (by decide)
    · obtain ⟨o, ho⟩ := exists_of_mapM hoctets l hl
      unfold octet at ho
      split_ifs at ho with hdigits
      have hdigit := List.all_eq_true.mp hdigits.1 ':' hcolon
      exact absurd hdigit (by decide)

theorem isPiece_of_mapM {ps : List (List Char)} {vs : List ℕ} (h : ps.mapM hexGroup = some vs) :
    ∀ p ∈ ps, IsPiece p := fun p hp =>
  let ⟨_, hv⟩ := exists_of_mapM h p hp
  isPiece_of_hexGroup hv

theorem isPiece_of_values {ps : List (List Char)} {vs : List ℕ} (h : values ps = some vs) :
    ∀ p ∈ ps, IsPiece p := by
  induction ps generalizing vs with
  | nil => exact fun p hp => absurd hp List.not_mem_nil
  | cons p ps ih =>
    intro q hq
    cases ps with
    | nil =>
      obtain rfl := List.mem_singleton.mp hq
      rw [values] at h
      rcases Option.or_eq_some_iff.mp h with h | ⟨-, h⟩
      · obtain ⟨v, hv, -⟩ := Option.map_eq_some_iff.mp h
        exact isPiece_of_hexGroup hv
      · exact isPiece_of_quad h
    | cons p' ps =>
      rw [values] at h
      obtain ⟨v, hv, h⟩ := Option.bind_eq_some_iff.mp h
      obtain ⟨vs', hvs, -⟩ := Option.map_eq_some_iff.mp h
      rcases List.mem_cons.mp hq with rfl | hq
      · exact isPiece_of_hexGroup hv
      · exact ih hvs q hq

/-! ### Joining and splitting -/

variable {ps : List (List Char)} {p t r : List Char}

@[simp] theorem join_nil : join [] = [] := rfl

@[simp] theorem join_singleton (p : List Char) : join [p] = p := List.intercalate_singleton

theorem join_cons_cons (p q : List Char) (ps : List (List Char)) :
    join (p :: q :: ps) = p ++ ':' :: join (q :: ps) := by
  unfold join
  rw [List.intercalate_cons_cons, List.append_assoc]
  rfl

theorem join_pieces (t : List Char) : join (pieces t) = t := by
  unfold pieces
  split_ifs with ht
  · rw [ht, join_nil]
  · exact List.intercalate_splitOn ':'

theorem pieces_join (h : ∀ p ∈ ps, IsPiece p) : pieces (join ps) = ps := by
  have hne : ps ≠ [] → join ps ≠ [] := by
    intro hps hjoin
    obtain ⟨p, ps', rfl⟩ := List.exists_cons_of_ne_nil hps
    have hp := (h p List.mem_cons_self).1
    cases ps' with
    | nil => exact hp (by rwa [join_singleton] at hjoin)
    | cons q ps' =>
      rw [join_cons_cons] at hjoin
      exact hp (List.append_eq_nil_iff.mp hjoin).1
  unfold pieces
  split_ifs with hjoin
  · by_contra hps
    exact hne (Ne.symm hps) hjoin
  · refine List.splitOn_intercalate ':' (fun p hp => (h p hp).2) ?_
    rintro rfl
    exact hjoin join_nil

theorem splitDouble_eq_some {l : List Char} (h : splitDouble t = some (l, r)) :
    t = l ++ ':' :: ':' :: r := by
  fun_induction splitDouble t generalizing l with
  | case1 => cases h
  | case2 => cases h
  | case3 c d t hcolons =>
    obtain ⟨rfl, rfl⟩ := Prod.mk.inj (Option.some.inj h)
    rw [hcolons.1, hcolons.2]
    rfl
  | case4 c d t hcolons ih =>
    obtain ⟨⟨l', r'⟩, hrest, heq⟩ := Option.map_eq_some_iff.mp h
    obtain ⟨rfl, rfl⟩ := Prod.mk.inj heq
    rw [ih hrest, List.cons_append]

/-- What is not the first colon of two is passed over. -/
theorem splitDouble_cons {c : Char} (h : c ≠ ':' ∨ t.head? ≠ some ':') :
    splitDouble (c :: t) = (splitDouble t).map fun r => (c :: r.1, r.2) := by
  cases t with
  | nil => rfl
  | cons d t =>
    rw [splitDouble, if_neg]
    rintro ⟨rfl, rfl⟩
    rcases h with h | h
    · exact h rfl
    · exact h rfl

theorem splitDouble_append (h : ':' ∉ p) :
    splitDouble (p ++ t) = (splitDouble t).map fun r => (p ++ r.1, r.2) := by
  induction p with
  | nil => simp
  | cons c p ih =>
    rw [List.mem_cons, not_or] at h
    rw [List.cons_append, splitDouble_cons (Or.inl (Ne.symm h.1)), ih h.2, Option.map_map]
    rfl

theorem head?_join_ne (h : ∀ p ∈ ps, IsPiece p) (hps : ps ≠ []) (t : List Char) :
    (join ps ++ t).head? ≠ some ':' := by
  obtain ⟨p, ps', rfl⟩ := List.exists_cons_of_ne_nil hps
  obtain ⟨hne, hcolon⟩ := h p List.mem_cons_self
  obtain ⟨c, p', rfl⟩ := List.exists_cons_of_ne_nil hne
  have hhead : (join ((c :: p') :: ps') ++ t).head? = some c := by
    cases ps' with
    | nil => rw [join_singleton]; rfl
    | cons q ps' => rw [join_cons_cons]; rfl
  rw [hhead]
  rintro heq
  exact hcolon (Option.some.inj heq ▸ List.mem_cons_self)

/-- Between pieces there is no `::`. -/
theorem splitDouble_join_append (h : ∀ p ∈ ps, IsPiece p) (t : List Char) :
    splitDouble (join ps ++ t) = (splitDouble t).map fun r => (join ps ++ r.1, r.2) := by
  induction ps with
  | nil => simp
  | cons p ps ih =>
    obtain ⟨hne, hcolon⟩ := h p List.mem_cons_self
    cases ps with
    | nil => rw [join_singleton, splitDouble_append hcolon]
    | cons q ps =>
      have hrest : ∀ p ∈ q :: ps, IsPiece p := fun p hp => h p (List.mem_cons_of_mem _ hp)
      rw [join_cons_cons, List.append_assoc, splitDouble_append hcolon, List.cons_append,
        splitDouble_cons (Or.inr (head?_join_ne hrest (List.cons_ne_nil _ _) t)),
        ih hrest, Option.map_map, Option.map_map]
      simp [Function.comp_def]

theorem splitDouble_join (h : ∀ p ∈ ps, IsPiece p) : splitDouble (join ps) = none := by
  have happend := splitDouble_join_append h []
  rwa [List.append_nil] at happend

/-! ### The parser and the rule -/

/-- **The parser implements the rule.** -/
theorem parseText_eq_some_iff {g : List ℕ} : parseText t = some g ↔ Denotes t g := by
  constructor
  · intro h
    unfold parseText at h
    split at h
    next hsplit =>
      obtain ⟨hvs, hlength⟩ := Option.filter_eq_some_iff.mp h
      rw [← join_pieces t]
      exact .full hvs (of_decide_eq_true hlength)
    next l r hsplit =>
      obtain ⟨us, hus, h⟩ := Option.bind_eq_some_iff.mp h
      obtain ⟨vs, hvs, h⟩ := Option.bind_eq_some_iff.mp h
      split_ifs at h with hlength
      obtain rfl := Option.some.inj h
      rw [splitDouble_eq_some hsplit, ← join_pieces l, ← join_pieces r]
      exact .compressed hus hvs hlength
  · intro h
    unfold parseText
    cases h with
    | @full ps vs hvs hlength =>
      have hps := isPiece_of_values hvs
      rw [splitDouble_join hps, pieces_join hps, hvs]
      simp [hlength]
    | @compressed ls rs us vs hus hvs hlength =>
      have hls := isPiece_of_mapM hus
      have hsplit : splitDouble (join ls ++ ':' :: ':' :: join rs) = some (join ls, join rs) := by
        rw [splitDouble_join_append hls]
        simp [splitDouble]
      rw [hsplit]
      simp only [pieces_join hls, pieces_join (isPiece_of_values hvs), hus, hvs,
        Option.bind_some, if_pos hlength]

/-! ### Digits -/

theorem hexDigit_digitChar : ∀ d < 16, hexDigit d.digitChar = some d := by decide

theorem hexDigits_append (v : ℕ) (cs cs' : List Char) :
    hexDigits v (cs ++ cs') = (hexDigits v cs).bind fun u => hexDigits u cs' := by
  induction cs generalizing v with
  | nil => rfl
  | cons c cs ih =>
    rw [List.cons_append, hexDigits, hexDigits, Option.bind_assoc]
    exact congrArg _ (funext fun d => ih _)

/-- The digits of a number, read back. -/
theorem hexDigits_toDigits (v : ℕ) : hexDigits 0 (Nat.toDigits 16 v) = some v := by
  induction v using Nat.strongRecOn with
  | ind v ih =>
    by_cases hv : v < 16
    · rw [Nat.toDigits_of_lt_base hv, hexDigits, hexDigit_digitChar v hv]
      simp [hexDigits]
    · have hdiv : v / 16 < v := by omega
      rw [Nat.toDigits_of_base_le (by decide) (Nat.le_of_not_lt hv), hexDigits_append, ih _ hdiv,
        Option.bind_some, hexDigits, hexDigit_digitChar _ (Nat.mod_lt v (by decide)),
        Option.bind_some, hexDigits, Nat.div_add_mod]

/-- A group in as few digits as it needs. -/
theorem hexGroup_toDigits {v : ℕ} (hv : v < 2 ^ 16) : hexGroup (Nat.toDigits 16 v) = some v := by
  have hlength := (@Nat.length_toDigits_le_iff 16 v 4 (by decide) (by decide)).mpr hv
  rw [hexGroup, if_pos ⟨Nat.length_toDigits_pos, hlength⟩, hexDigits_toDigits]

theorem mapM_toDigits {vs : List ℕ} (h : ∀ v ∈ vs, v < 2 ^ 16) :
    (vs.map (Nat.toDigits 16)).mapM hexGroup = some vs := by
  induction vs with
  | nil => rfl
  | cons v vs ih =>
    rw [List.map_cons, List.mapM_cons, hexGroup_toDigits (h v List.mem_cons_self),
      ih fun u hu => h u (List.mem_cons_of_mem _ hu)]
    rfl

/-- Groups without an IPv4 address. -/
theorem values_of_mapM {ps : List (List Char)} {vs : List ℕ} (h : ps.mapM hexGroup = some vs) :
    values ps = some vs := by
  induction ps generalizing vs with
  | nil => exact h
  | cons p ps ih =>
    rw [List.mapM_cons, Option.bind_eq_bind, Option.bind_eq_some_iff] at h
    obtain ⟨v, hv, h⟩ := h
    obtain ⟨us, hus, h⟩ := Option.bind_eq_some_iff.mp h
    obtain rfl := Option.some.inj h
    cases ps with
    | nil =>
      obtain rfl := Option.some.inj hus
      rw [values, hv]
      rfl
    | cons q ps => rw [values, hv, Option.bind_some, ih hus, Option.map_some]

/-! ### How often `::` occurs -/

/-- The number of places in a text where two colons stand. -/
def countDouble : List Char → ℕ
  | [] => 0
  | c :: t => (if c = ':' ∧ t.head? = some ':' then 1 else 0) + countDouble t

theorem countDouble_append (h : ':' ∉ p) (t : List Char) :
    countDouble (p ++ t) = countDouble t := by
  induction p with
  | nil => rfl
  | cons c p ih =>
    rw [List.mem_cons, not_or] at h
    rw [List.cons_append, countDouble, if_neg fun hand => h.1 hand.1.symm, ih h.2, Nat.zero_add]

/-- Pieces have no two colons in a row. -/
theorem countDouble_join_append (h : ∀ p ∈ ps, IsPiece p) (t : List Char) :
    countDouble (join ps ++ t) = countDouble t := by
  induction ps with
  | nil => rfl
  | cons p ps ih =>
    obtain ⟨-, hcolon⟩ := h p List.mem_cons_self
    cases ps with
    | nil => rw [join_singleton, countDouble_append hcolon]
    | cons q ps =>
      have hrest : ∀ p ∈ q :: ps, IsPiece p := fun p hp => h p (List.mem_cons_of_mem _ hp)
      have hhead := head?_join_ne hrest (List.cons_ne_nil _ _) t
      rw [join_cons_cons, List.append_assoc, countDouble_append hcolon, List.cons_append,
        countDouble, if_neg fun hand => hhead hand.2, ih hrest, Nat.zero_add]

theorem countDouble_join (h : ∀ p ∈ ps, IsPiece p) : countDouble (join ps) = 0 := by
  have happend := countDouble_join_append h []
  rwa [List.append_nil] at happend

theorem countDouble_double (h : r.head? ≠ some ':') :
    countDouble (':' :: ':' :: r) = 1 + countDouble r := by
  rw [countDouble, if_pos ⟨rfl, rfl⟩, countDouble, if_neg fun hand => h hand.2, Nat.zero_add]

theorem countDouble_le_append (p t : List Char) : countDouble t ≤ countDouble (p ++ t) := by
  induction p with
  | nil => exact Nat.le_refl _
  | cons c p ih => exact Nat.le_trans ih (Nat.le_add_left _ _)

theorem countDouble_pos (l r : List Char) : 1 ≤ countDouble (l ++ ':' :: ':' :: r) := by
  refine Nat.le_trans ?_ (countDouble_le_append l _)
  rw [countDouble, if_pos ⟨rfl, rfl⟩]
  exact Nat.le_add_right _ _

theorem append_double_inj_of_le {l l' r' : List Char}
    (heq : l ++ ':' :: ':' :: r = l' ++ ':' :: ':' :: r')
    (h : countDouble (l ++ ':' :: ':' :: r) ≤ 1) (hle : l.length ≤ l'.length) :
    l = l' ∧ r = r' := by
  obtain ⟨m, rfl⟩ : l <+: l' := List.prefix_of_prefix_length_le ⟨_, rfl⟩ ⟨_, heq.symm⟩ hle
  rw [List.append_assoc] at heq
  have hrest := List.append_cancel_left heq
  cases m with
  | nil => exact ⟨(List.append_nil l).symm, by simpa using hrest⟩
  | cons c m =>
    -- the second place is in the text behind the first colon
    have hbehind : ':' :: r = m ++ ':' :: ':' :: r' := (List.cons.inj hrest).2
    have hsecond : 1 ≤ countDouble (':' :: r) := hbehind ▸ countDouble_pos m r'
    have hfirst := countDouble_le_append l (':' :: ':' :: r)
    rw [countDouble, if_pos ⟨rfl, rfl⟩] at hfirst
    omega

/-- There is one place where `::` stands. -/
theorem append_double_inj {l l' r' : List Char}
    (heq : l ++ ':' :: ':' :: r = l' ++ ':' :: ':' :: r')
    (h : countDouble (l ++ ':' :: ':' :: r) ≤ 1) : l = l' ∧ r = r' := by
  rcases Nat.le_total l.length l'.length with hle | hle
  · exact append_double_inj_of_le heq h hle
  · obtain ⟨hl, hr⟩ := append_double_inj_of_le heq.symm (heq ▸ h) hle
    exact ⟨hl.symm, hr.symm⟩

end Muhui.Rfc4291
