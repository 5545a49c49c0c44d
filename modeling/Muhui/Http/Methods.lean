/-
  The two recognisers of methods on the token of a request line.

  `on_request_method` is handed the token as a pointer and a length, and `charsToHttpMethod` reads
  from the pointer on without the length.  So it takes a token for the method that it merely begins
  with, and a name that holds blanks is looked for behind the token too.
-/
import Muhui.Http.Tokens

namespace Muhui.Http

/-- A token of the method rule, of any length. -/
def IsMethodToken (t : Bytes) : Prop := t ≠ [] ∧ ∀ b ∈ t, isMethodChar b = true

/-- With the token `t` and a blank at the front of what the callback sees, both recognisers give the
same method, and a token that is no method is reported. -/
structure Recognised (t rest : Bytes) : Prop where
  same : charsToHttpMethod (t ++ 32 :: rest) = stringToHttpMethod t
  reported : stringToHttpMethod t = .invalidMethod → ∀ (buffer : Bytes) (s : RequestData) (at_ : ℕ),
    buffer.drop at_ = t ++ 32 :: rest → onRequestMethod buffer s at_ = { s with error := 1000 }

/-- No method name is a proper prefix of the token. -/
def NoNamePrefix (t : Bytes) : Prop := ∀ e ∈ httpMethodMap, e.2 <+: t → e.2 = t

instance (t : Bytes) : Decidable (NoNamePrefix t) :=
  inferInstanceAs (Decidable (∀ e ∈ httpMethodMap, e.2 <+: t → e.2 = t))

/-- The token and what follows spell the one name that holds blanks. -/
def SpellsSearch (t rest : Bytes) : Prop := t = bytes "M" ∧ bytes "- SEARCH" <+: rest

/-! ### The front of the buffer -/

section Token

variable {t rest : Bytes}

theorem IsMethodToken.blank_not_mem (ht : IsMethodToken t) : 32 ∉ t := by
  intro h
  exact absurd (ht.2 32 h) (by decide)

theorem IsMethodToken.ne_zero (ht : IsMethodToken t) : ∀ b ∈ t, b ≠ 0 := by
  rintro b hb rfl
  exact absurd (ht.2 0 hb) (by decide)

/-- The buffer starts with the names that the token starts with. -/
theorem prefix_token_iff (ht : IsMethodToken t) (hnot : ¬SpellsSearch t rest)
    {e : HttpMethod × Bytes} (he : e ∈ httpMethodMap) :
    e.2 <+: t ++ 32 :: rest ↔ e.2 <+: t := by
  constructor
  · intro h
    by_cases hblank : 32 ∈ e.2
    · obtain rfl := (blank_mem_iff e he).mp hblank
      exact absurd (of_prefix_blank search_split (by decide) ht.blank_not_mem h) hnot
    · exact prefix_of_blank hblank h
  · intro h
    exact h.trans (List.prefix_append t _)

end Token

/-! ### Both recognisers -/

theorem method_ext {m m' : HttpMethod} (h : ∀ n ≠ .invalidMethod, m = n ↔ m' = n) : m = m' := by
  by_cases hm : m = .invalidMethod
  · by_contra hne
    have hm' : m' ≠ .invalidMethod := fun h' => hne (hm.trans h'.symm)
    exact hne ((h m' hm').mpr rfl)
  · exact ((h m hm).mp rfl).symm

theorem onRequestMethod_invalid {buffer : Bytes} {s : RequestData} {at_ : ℕ}
    (h : charsToHttpMethod (buffer.drop at_) = .invalidMethod) :
    onRequestMethod buffer s at_ = { s with error := 1000 } := by
  rw [onRequestMethod, h]
  rfl

/-- The recognisers agree on exactly the tokens that neither extend a method name nor are the front
of the name with blanks. -/
theorem recognised_iff {t rest : Bytes} (ht : IsMethodToken t) :
    Recognised t rest ↔ NoNamePrefix t ∧ ¬SpellsSearch t rest := by
  constructor
  · intro h
    constructor
    · intro e he hprefix
      have hvalid := httpMethodMap_valid e he
      have hchars : charsToHttpMethod (t ++ 32 :: rest) = e.1 :=
        (charsToHttpMethod_eq_iff hvalid).mpr ⟨e, he, rfl, hprefix.trans (List.prefix_append t _)⟩
      -- so the token has the same method, and a method has one name
      rw [h.same, stringToHttpMethod_eq_iff ht.ne_zero hvalid] at hchars
      obtain ⟨e', he', hmethod, rfl⟩ := hchars
      rw [httpMethodMap_unique e' he' e he hmethod]
    · rintro ⟨rfl, hrest⟩
      have hprefix : bytes "M - SEARCH" <+: bytes "M" ++ 32 :: rest := by
        rw [search_split, List.prefix_append_right_inj, List.cons_prefix_cons]
        exact ⟨rfl, hrest⟩
      have hchars : charsToHttpMethod (bytes "M" ++ 32 :: rest) = .msearch :=
        (charsToHttpMethod_eq_iff (by decide)).mpr
          ⟨(.msearch, bytes "M - SEARCH"), by decide, rfl, hprefix⟩
      have hstring : stringToHttpMethod (bytes "M") = .invalidMethod := by decide
      rw [h.same, hstring] at hchars
      exact absurd hchars (by decide)
  · rintro ⟨hnames, hnot⟩
    have hsame : charsToHttpMethod (t ++ 32 :: rest) = stringToHttpMethod t := by
      refine method_ext fun m hm => ?_
      rw [charsToHttpMethod_eq_iff hm, stringToHttpMethod_eq_iff ht.ne_zero hm]
      refine exists_congr fun e => and_congr_right fun he => and_congr_right' ?_
      rw [prefix_token_iff ht hnot he]
      constructor
      · exact hnames e he
      · intro heq
        rw [heq]
    refine ⟨hsame, fun hinvalid buffer s at_ hbuffer => ?_⟩
    apply onRequestMethod_invalid
    rw [hbuffer, hsame, hinvalid]

theorem recognised_get : Recognised (bytes "GET") (bytes "/ HTTP/1.1") :=
  (recognised_iff ⟨by decide, by decide⟩).mpr ⟨by decide, fun h => absurd h.1 (by decide)⟩

/-- "GETX" is taken for GET, and no error is set. -/
theorem not_recognised_getx :
    ¬Recognised (bytes "GETX") (bytes "/ HTTP/1.1") ∧
      stringToHttpMethod (bytes "GETX") = .invalidMethod ∧
      (onRequestMethod (bytes "GETX / HTTP/1.1") (.init {} 0) 0).error = 0 := by
  refine ⟨fun h => ?_, by decide, by decide⟩
  exact absurd h.same (by decide)

end Muhui.Http
