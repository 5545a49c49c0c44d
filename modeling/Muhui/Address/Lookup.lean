/-
  How `Address::Lookup` splits a host into a node and a service (`address.cc`).

  The function looks for brackets first, then for a colon, and takes the host as it is when neither
  has given a node.  The service is a pointer into the string of the host, and a stage that gives no
  node may leave it behind.  Reading behind the terminator of the string is a fault (`none`).

  `Splits` says what a host is to be split into, `split_of_closed` and `split_of_not_closed` what
  it is split into: the brackets decide when they have something between them, the colons otherwise.
-/
import Mathlib.Data.List.Basic
import Mathlib.Data.List.Count

namespace Muhui.Address.Lookup

/-! ### The code -/

/-- `host.c_str()[i]` -/
def byte (host : List Char) (i : ℕ) : Option Char := (host ++ ['\x00'])[i]?

/-- `memchr(host.c_str() + p, c, n)`, as an index into the host. -/
def memchr (host : List Char) (p : ℕ) (c : Char) (n : ℕ) : Option (Option ℕ) :=
  if p + n ≤ host.length + 1 then
    let bytes := ((host ++ ['\x00']).drop p).take n
    some (if c ∈ bytes then some (p + bytes.idxOf c) else none)
  else none

/-- The part for addresses in brackets: the node, which is empty if there is none, and the
service. -/
def splitIpv6 (host : List Char) : Option (List Char × Option ℕ) :=
  if host.head? = some '[' then
    (memchr host 1 ']' (host.length - 1)).bind fun
      | some endipv6 => (byte host (endipv6 + 1)).map fun c =>
          ((host.drop 1).take (endipv6 - 1), if c = ':' then some (endipv6 + 2) else none)
      | none => some ([], none)
  else some ([], none)

/-- The part for a name and a port. -/
def splitService (host : List Char) : Option (List Char × Option ℕ) :=
  (memchr host 0 ':' host.length).bind fun
    | some service => (memchr host (service + 1) ':' (host.length - service - 1)).map fun
        | none => (host.take service, some (service + 1))
        | some _ => ([], some service)
    | none => some ([], none)

/-- The node and the service that `getaddrinfo` is called with; the service is the text from the
pointer on. -/
def split (host : List Char) : Option (List Char × Option (List Char)) :=
  ((splitIpv6 host).bind fun r => if r.1.isEmpty then splitService host else some r).map fun r =>
    (if r.1.isEmpty then host else r.1, r.2.map fun i => host.drop i)

/-! ### What it is for -/

/-- The host is an address in brackets, with or without a service. -/
def Bracketed (host : List Char) : Prop :=
  ∃ x, ']' ∉ x ∧ (host = '[' :: (x ++ [']']) ∨ ∃ s, host = '[' :: (x ++ ']' :: ':' :: s))

/-- What a host is to be split into. -/
inductive Splits : List Char → List Char × Option (List Char) → Prop
  | bracketService {x : List Char} (s : List Char) (hx : ']' ∉ x) :
    Splits ('[' :: (x ++ ']' :: ':' :: s)) (x, some s)
  | bracket {x : List Char} (hx : ']' ∉ x) : Splits ('[' :: (x ++ [']'])) (x, none)
  | service {h s : List Char} (hne : h ≠ []) (hh : ':' ∉ h) (hs : ':' ∉ s)
    (hbrackets : ¬Bracketed (h ++ ':' :: s)) : Splits (h ++ ':' :: s) (h, some s)
  | bare {host : List Char} (hopen : '[' ∉ host) (hclose : ']' ∉ host)
    (hcount : host.count ':' = 0 ∨ 2 ≤ host.count ':') : Splits host (host, none)

/-- The host is split into what it is to be split into, and nothing behind it is read. -/
def Right (host : List Char) : Prop := ∃ r, split host = some r ∧ ∀ e, Splits host e → r = e

/-! ### The hosts that go wrong -/

/-- A bare IPv6 address. -/
def BareColons (host : List Char) : Prop := '[' ∉ host ∧ ']' ∉ host ∧ 2 ≤ host.count ':'

/-- Brackets with nothing between them. -/
def EmptyBrackets (host : List Char) : Prop :=
  host = ['[', ']'] ∨ ∃ s, host = '[' :: ']' :: ':' :: s

/-- A name with one colon that begins with brackets and has other text behind them. -/
def TextBehind (host : List Char) : Prop :=
  ∃ x c rest, host = '[' :: (x ++ ']' :: c :: rest) ∧ ']' ∉ x ∧ x ≠ [] ∧ c ≠ ':' ∧
    host.count ':' = 1

variable {host x h s : List Char}

/-! ### The parts -/

theorem memchr_eq {p n : ℕ} (hn : p + n = host.length) (c : Char) :
    memchr host p c n =
      some (if c ∈ host.drop p then some (p + (host.drop p).idxOf c) else none) := by
  have hbytes : ((host ++ ['\x00']).drop p).take n = host.drop p := by
    rw [List.drop_append_of_le_length (by omega)]
    exact List.take_left' (by rw [List.length_drop]; omega)
  unfold memchr
  rw [if_pos (by omega), hbytes]

theorem splitIpv6_of_closed {rest : List Char} (hhost : host = '[' :: (x ++ ']' :: rest))
    (hx : ']' ∉ x) :
    splitIpv6 host =
      some (x, if rest.head? = some ':' then some (x.length + 3) else none) := by
  have hdrop : host.drop 1 = x ++ ']' :: rest := by rw [hhost]; rfl
  have hlength : 1 + (host.length - 1) = host.length := by rw [hhost]; simp; omega
  have hindex : (host.drop 1).idxOf ']' = x.length := by
    rw [hdrop, List.idxOf_append_of_notMem hx, List.idxOf_cons_self, Nat.add_zero]
  have hmem : ']' ∈ host.drop 1 := by rw [hdrop]; simp
  have hbyte : byte host (1 + x.length + 1) = some (rest.head?.getD '\x00') := by
    have hnext : host ++ ['\x00'] = ('[' :: (x ++ [']'])) ++ (rest ++ ['\x00']) := by
      rw [hhost]; simp
    have hbracketed : ('[' :: (x ++ [']'])).length = 1 + x.length + 1 := by
      rw [List.length_cons, List.length_append, List.length_singleton]
      omega
    unfold byte
    rw [hnext, List.getElem?_append_right (Nat.le_of_eq hbracketed), hbracketed, Nat.sub_self]
    cases rest <;> rfl
  have hcolon : rest.head?.getD '\x00' = ':' ↔ rest.head? = some ':' := by
    cases rest <;> simp
  unfold splitIpv6
  rw [if_pos (by rw [hhost]; rfl), memchr_eq hlength, if_pos hmem, hindex, Option.bind_some]
  dsimp only
  rw [hbyte, Option.map_some, hdrop]
  simp only [hcolon, Nat.add_sub_cancel_left, List.take_left' rfl]
  congr 2
  split_ifs
  · congr 1
    omega
  · rfl

theorem splitIpv6_of_not_closed
    (hhost : ∀ x rest, host ≠ '[' :: (x ++ ']' :: rest)) : splitIpv6 host = some ([], none) := by
  unfold splitIpv6
  split_ifs with hhead
  · obtain ⟨rest, rfl⟩ : ∃ rest, host = '[' :: rest := by
      cases host with
      | nil => cases hhead
      | cons c rest => exact ⟨rest, by rw [Option.some.inj hhead]⟩
    have hmem : ']' ∉ ('[' :: rest).drop 1 := by
      intro hmem
      obtain ⟨x, rest', hrest, -⟩ := List.eq_append_cons_of_mem hmem
      exact hhost x rest' (congrArg _ hrest)
    rw [memchr_eq (by simp; omega), if_neg hmem]
    rfl
  · rfl

theorem splitService_of_not_mem (h : ':' ∉ host) : splitService host = some ([], none) := by
  unfold splitService
  rw [memchr_eq (Nat.zero_add _), List.drop_zero, if_neg h]
  rfl

/-- The first colon, and whether there is another one. -/
theorem splitService_of_mem (hh : ':' ∉ h) :
    splitService (h ++ ':' :: s) =
      some (if ':' ∈ s then ([], some h.length) else (h, some (h.length + 1))) := by
  have hindex : (h ++ ':' :: s).idxOf ':' = h.length := by
    rw [List.idxOf_append_of_notMem hh, List.idxOf_cons_self, Nat.add_zero]
  have hdrop : (h ++ ':' :: s).drop (h.length + 1) = s := by simp
  unfold splitService
  rw [memchr_eq (Nat.zero_add _), List.drop_zero, if_pos (by simp), hindex, Option.bind_some]
  dsimp only
  rw [Nat.zero_add, memchr_eq (by simp; omega), hdrop]
  split_ifs
  · rfl
  · simp

/-! ### The whole -/

/-- There is something between brackets at the beginning. -/
def Closed (host : List Char) : Prop :=
  ∃ x rest, host = '[' :: (x ++ ']' :: rest) ∧ ']' ∉ x ∧ x ≠ []

theorem split_of_closed {rest : List Char} (hx : ']' ∉ x) (hne : x ≠ []) :
    split ('[' :: (x ++ ']' :: rest)) =
      some (x, if rest.head? = some ':' then some rest.tail else none) := by
  have hempty : x.isEmpty = false := List.isEmpty_eq_false_iff.mpr hne
  have hdrop : ('[' :: (x ++ ']' :: rest)).drop (x.length + 3) = rest.tail := by
    have hlist : '[' :: (x ++ ']' :: rest) = ('[' :: (x ++ [']'])) ++ rest := by simp
    rw [hlist, List.drop_append, List.drop_eq_nil_of_le (by simp), List.nil_append]
    have hone : x.length + 3 - ('[' :: (x ++ [']'])).length = 1 := by simp
    rw [hone, List.drop_one]
  unfold split
  rw [splitIpv6_of_closed rfl hx, Option.bind_some]
  dsimp only
  rw [hempty, if_neg Bool.false_ne_true, Option.map_some]
  dsimp only
  rw [hempty, if_neg Bool.false_ne_true]
  split_ifs
  · rw [Option.map_some, hdrop]
  · rfl

/-- Otherwise the colons decide. -/
theorem split_of_not_closed (hclosed : ¬Closed host) :
    split host = (splitService host).map fun r =>
      (if r.1.isEmpty then host else r.1, r.2.map fun i => host.drop i) := by
  have hipv6 : ∃ service, splitIpv6 host = some ([], service) := by
    by_cases h : ∃ x rest, host = '[' :: (x ++ ']' :: rest)
    · obtain ⟨x, rest, h⟩ := h
      have hmem : ']' ∈ x ++ ']' :: rest := by simp
      obtain ⟨x', rest', heq, hx'⟩ := List.eq_append_cons_of_mem hmem
      rw [heq] at h
      have hnil : x' = [] := by
        by_contra hne
        exact hclosed ⟨x', rest', h, hx', hne⟩
      exact ⟨_, hnil ▸ splitIpv6_of_closed h hx'⟩
    · push Not at h
      exact ⟨_, splitIpv6_of_not_closed h⟩
  obtain ⟨service, hipv6⟩ := hipv6
  unfold split
  rw [hipv6]
  rfl

theorem split_of_not_mem (hclosed : ¬Closed host) (hcolon : ':' ∉ host) :
    split host = some (host, none) := by
  rw [split_of_not_closed hclosed, splitService_of_not_mem hcolon]
  rfl

theorem split_of_mem (hclosed : ¬Closed (h ++ ':' :: s)) (hh : ':' ∉ h) :
    split (h ++ ':' :: s) =
      some (if ':' ∈ s then (h ++ ':' :: s, some (':' :: s))
        else (if h = [] then ':' :: s else h, some s)) := by
  rw [split_of_not_closed hclosed, splitService_of_mem hh]
  split_ifs with hs hnil
  · simp
  · simp [hnil]
  · simp [hnil]

/-! ### When the host is split right -/

theorem append_cons_inj {c : Char} {x x' rest rest' : List Char} (hx : c ∉ x) (hx' : c ∉ x')
    (heq : x ++ c :: rest = x' ++ c :: rest') : x = x' ∧ rest = rest' := by
  have hlength : x.length = x'.length := by
    have hindex := congrArg (List.idxOf c) heq
    simpa [List.idxOf_append_of_notMem, hx, hx'] using hindex
  obtain ⟨hxx, hrest⟩ := List.append_inj heq hlength
  exact ⟨hxx, (List.cons.inj hrest).2⟩

theorem count_eq_one {h s : List Char} (hh : ':' ∉ h) (hs : ':' ∉ s) :
    (h ++ ':' :: s).count ':' = 1 := by
  rw [List.count_append, List.count_cons_self, List.count_eq_zero.mpr hh,
    List.count_eq_zero.mpr hs]

theorem right_iff_of_split {r : List Char × Option (List Char)} (hsplit : split host = some r) :
    Right host ↔ ∀ e, Splits host e → r = e := by
  unfold Right
  rw [hsplit]
  simp

/-- With something between the brackets, text behind them is left out. -/
theorem right_iff_of_closed {rest : List Char} (hx : ']' ∉ x) (hne : x ≠ []) :
    Right ('[' :: (x ++ ']' :: rest)) ↔ ¬TextBehind ('[' :: (x ++ ']' :: rest)) := by
  rw [right_iff_of_split (split_of_closed hx hne)]
  constructor
  · rintro hright ⟨x', c, rest', heq, hx', -, hc, hcount⟩
    obtain ⟨rfl, rfl⟩ := append_cons_inj hx hx' (List.cons.inj heq).2
    -- the host has one colon, so it is to be split there
    have hmem : ':' ∈ '[' :: (x ++ ']' :: c :: rest') :=
      List.count_pos_iff.mp (hcount ▸ Nat.one_pos)
    obtain ⟨h, s, hsplit, hh⟩ := List.eq_append_cons_of_mem hmem
    have hs : ':' ∉ s := by
      rw [hsplit, List.count_append, List.count_cons_self, List.count_eq_zero.mpr hh] at hcount
      exact List.count_eq_zero.mp (by omega)
    have hnil : h ≠ [] := by
      rintro rfl
      cases hsplit
    have hbrackets : ¬Bracketed (h ++ ':' :: s) := by
      rw [← hsplit]
      rintro ⟨y, hy, hlist | ⟨t, hlist⟩⟩
      · obtain ⟨-, hrest⟩ := append_cons_inj hx hy (List.cons.inj hlist).2
        cases hrest
      · obtain ⟨-, hrest⟩ := append_cons_inj hx hy (List.cons.inj hlist).2
        exact hc (List.cons.inj hrest).1
    have hwrong := hright (h, some s) (hsplit ▸ Splits.service hnil hh hs hbrackets)
    rw [if_neg (by simpa using hc)] at hwrong
    cases hwrong
  · intro hbehind e he
    generalize hhost : '[' :: (x ++ ']' :: rest) = host at he
    cases he with
    | bracketService s hy =>
      obtain ⟨rfl, rfl⟩ := append_cons_inj hx hy (List.cons.inj hhost).2
      rfl
    | bracket hy =>
      obtain ⟨rfl, rfl⟩ := append_cons_inj hx hy (List.cons.inj hhost).2
      rfl
    | @service h s hnil hh hs hbrackets =>
      rw [← hhost] at hbrackets
      exfalso
      cases rest with
      | nil => exact hbrackets ⟨x, hx, Or.inl rfl⟩
      | cons c rest =>
        refine hbehind ⟨x, c, rest, rfl, hx, hne, ?_, by rw [hhost, count_eq_one hh hs]⟩
        rintro rfl
        exact hbrackets ⟨x, hx, Or.inr ⟨rest, rfl⟩⟩
    | bare hopen hclose hcount =>
      rw [← hhost] at hopen
      exact absurd List.mem_cons_self hopen

/-- Empty brackets are taken for a part of a name. -/
theorem not_right_of_emptyBrackets (hempty : EmptyBrackets host) : ¬Right host := by
  have hclosed : ∀ rest, ¬Closed ('[' :: ']' :: rest) := by
    rintro rest ⟨x, rest', heq, hx, hne⟩
    obtain ⟨rfl, -⟩ := append_cons_inj List.not_mem_nil hx (List.cons.inj heq).2
    exact hne rfl
  rcases hempty with rfl | ⟨s, rfl⟩
  · rw [right_iff_of_split (split_of_not_mem (hclosed []) (by decide))]
    intro hright
    have hwrong := hright ([], none) (Splits.bracket List.not_mem_nil)
    cases hwrong
  · have hsplit := @split_of_mem ['[', ']'] s (hclosed (':' :: s)) (by decide)
    intro hright
    have hwrong := (right_iff_of_split hsplit).mp hright ([], some s)
      (Splits.bracketService s List.not_mem_nil)
    split_ifs at hwrong with hs hnil
    · cases hwrong
    · cases hnil
    · cases hwrong

/-- Without text between brackets at the beginning only empty ones count as brackets. -/
theorem emptyBrackets_of_bracketed (hclosed : ¬Closed host) (hbrackets : Bracketed host) :
    EmptyBrackets host := by
  obtain ⟨x, hx, hhost | ⟨s, hhost⟩⟩ := hbrackets
  · by_cases hnil : x = []
    · exact Or.inl (by rw [hhost, hnil]; rfl)
    · exact absurd ⟨x, [], hhost, hx, hnil⟩ hclosed
  · by_cases hnil : x = []
    · exact Or.inr ⟨s, by rw [hhost, hnil]; rfl⟩
    · exact absurd ⟨x, ':' :: s, hhost, hx, hnil⟩ hclosed

theorem right_iff_of_not_mem (hclosed : ¬Closed host) (hcolon : ':' ∉ host) :
    Right host ↔ ¬EmptyBrackets host := by
  refine ⟨fun hright hempty => not_right_of_emptyBrackets hempty hright, fun hempty => ?_⟩
  rw [right_iff_of_split (split_of_not_mem hclosed hcolon)]
  intro e he
  cases he with
  | @bracketService x s hx =>
    exact absurd (emptyBrackets_of_bracketed hclosed ⟨x, hx, Or.inr ⟨s, rfl⟩⟩) hempty
  | @bracket x hx =>
    exact absurd (emptyBrackets_of_bracketed hclosed ⟨x, hx, Or.inl rfl⟩) hempty
  | service hnil hh hs hbrackets => exact absurd (by simp) hcolon
  | bare hopen hclose hcount => rfl

theorem right_iff_of_mem (hclosed : ¬Closed (h ++ ':' :: s)) (hh : ':' ∉ h) :
    Right (h ++ ':' :: s) ↔
      ¬BareColons (h ++ ':' :: s) ∧ ¬EmptyBrackets (h ++ ':' :: s) := by
  have hcount : (h ++ ':' :: s).count ':' = 1 + s.count ':' := by
    rw [List.count_append, List.count_cons_self, List.count_eq_zero.mpr hh]
    omega
  rw [right_iff_of_split (split_of_mem hclosed hh)]
  constructor
  · intro hright
    refine ⟨fun hbare => ?_, fun hempty => ?_⟩
    · -- the pointer to the first colon is left behind
      have hs : ':' ∈ s := by
        have htwo := hbare.2.2
        exact List.count_pos_iff.mp (by omega)
      have hwrong := hright _ (Splits.bare hbare.1 hbare.2.1 (Or.inr hbare.2.2))
      rw [if_pos hs] at hwrong
      cases hwrong
    · exact not_right_of_emptyBrackets hempty
        ((right_iff_of_split (split_of_mem hclosed hh)).mpr hright)
  · rintro ⟨hbare, hempty⟩ e he
    generalize hhost : h ++ ':' :: s = host at he
    rw [hhost] at hclosed hempty hbare hcount
    cases he with
    | @bracketService x t hx =>
      exact absurd (emptyBrackets_of_bracketed hclosed ⟨x, hx, Or.inr ⟨t, rfl⟩⟩) hempty
    | @bracket x hx =>
      exact absurd (emptyBrackets_of_bracketed hclosed ⟨x, hx, Or.inl rfl⟩) hempty
    | @service h' s' hnil hh' hs' hbrackets =>
      obtain ⟨rfl, rfl⟩ := append_cons_inj hh hh' hhost
      rw [if_neg hs', if_neg hnil]
    | bare hopen hclose htwo =>
      refine absurd ⟨hopen, hclose, ?_⟩ hbare
      omega

/-- **When a host is split right**: it is not a bare IPv6 address, not one in empty brackets, and
not a name with a port that begins with brackets. -/
theorem right_iff (host : List Char) :
    Right host ↔ ¬BareColons host ∧ ¬EmptyBrackets host ∧ ¬TextBehind host := by
  by_cases hclosed : Closed host
  · obtain ⟨x, rest, rfl, hx, hne⟩ := hclosed
    have hbare : ¬BareColons ('[' :: (x ++ ']' :: rest)) :=
      fun hbare => hbare.1 List.mem_cons_self
    have hempty : ¬EmptyBrackets ('[' :: (x ++ ']' :: rest)) := by
      rintro (heq | ⟨s, heq⟩)
      · obtain ⟨rfl, -⟩ := @append_cons_inj ']' x [] rest [] hx List.not_mem_nil
          (List.cons.inj heq).2
        exact hne rfl
      · obtain ⟨rfl, -⟩ := @append_cons_inj ']' x [] rest (':' :: s) hx List.not_mem_nil
          (List.cons.inj heq).2
        exact hne rfl
    rw [right_iff_of_closed hx hne]
    exact ⟨fun hbehind => ⟨hbare, hempty, hbehind⟩, fun h => h.2.2⟩
  · have hbehind : ¬TextBehind host := by
      rintro ⟨x, c, rest, rfl, hx, hne, -⟩
      exact hclosed ⟨x, c :: rest, rfl, hx, hne⟩
    by_cases hcolon : ':' ∈ host
    · obtain ⟨h, s, rfl, hh⟩ := List.eq_append_cons_of_mem hcolon
      rw [right_iff_of_mem hclosed hh]
      exact ⟨fun hright => ⟨hright.1, hright.2, hbehind⟩, fun hright => ⟨hright.1, hright.2.1⟩⟩
    · have hbare : ¬BareColons host := by
        intro hbare
        have hzero := List.count_eq_zero.mpr hcolon
        have htwo := hbare.2.2
        omega
      rw [right_iff_of_not_mem hclosed hcolon]
      exact ⟨fun hempty => ⟨hbare, hempty, hbehind⟩, fun hright => hright.2.1⟩

/-- A bare IPv6 address is passed on with its text from the first colon on as the service. -/
theorem not_right_of_bare_ipv6 :
    split "fe80::1".toList = some ("fe80::1".toList, some "::1".toList) ∧
      Splits "fe80::1".toList ("fe80::1".toList, none) ∧ ¬Right "fe80::1".toList := by
  have hsplits : Splits "fe80::1".toList ("fe80::1".toList, none) :=
    Splits.bare (by decide) (by decide) (by decide)
  refine ⟨by decide, hsplits, ?_⟩
  rintro ⟨r, hr, hright⟩
  rw [hright _ hsplits] at hr
  revert hr
  decide

end Muhui.Address.Lookup
