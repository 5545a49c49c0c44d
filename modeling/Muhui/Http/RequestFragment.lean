/-
  The part of the generated request scanner that reads a request with an absolute path.

  A place says what is being read.  Bytes that the scanner accepts at a place but that no printed
  request has there (percent escapes, an authority behind "//", control characters in names and
  values, line ends without carriage return) are left out, so a move of the fragment is a transition
  of the generated table, with exactly the actions the table attaches to it.
-/
import Muhui.Http.Reads
import Muhui.Http.Tokens
import Muhui.Scanner.Fragment

namespace Muhui.Http

open Scanner

/-! ### The places -/

inductive RequestPlace
  | start
  /-- Behind `n` characters of the method. -/
  | method (n : ℕ)
  | uri | slash | path | queryStart | query | fragmentStart | fragment
  /-- Behind `n` characters of the version. -/
  | version (n : ℕ)
  | cr | lineStart | name | colon | value | lastCr | finished
  deriving DecidableEq

/-- The ends of the path, the query and the fragment: what is reported there, and `" "` or `"#"`. -/
def uriEnd (b : UInt8) (acts : List RequestAction) :
    Option (RequestPlace × List RequestAction) :=
  if b = 32 then some (.version 0, acts)
  else if b = 35 then some (.fragmentStart, acts) else none

/-- The moves of the fragment. -/
def requestStep : RequestPlace → UInt8 → Option (RequestPlace × List RequestAction)
  | .start, b => if isMethodChar b then some (.method 1, [.mark]) else none
  | .method n, b =>
    if b = 32 then some (.uri, [.requestMethod])
    else if isMethodChar b && n < 20 then some (.method (n + 1), []) else none
  | .uri, b => if b = 47 then some (.slash, [.mark]) else none
  | .slash, b =>
    if isPchar b then some (.path, [])
    else if b = 63 then some (.queryStart, [.requestPath])
    else uriEnd b [.requestPath, .requestUri]
  | .path, b =>
    if isPchar b || b == 47 then some (.path, [])
    else if b = 63 then some (.queryStart, [.requestPath])
    else uriEnd b [.requestPath, .requestUri]
  | .queryStart, b =>
    if isQueryChar b then some (.query, [.startQuery])
    else uriEnd b [.startQuery, .queryString, .requestUri]
  | .query, b =>
    if isQueryChar b then some (.query, []) else uriEnd b [.queryString, .requestUri]
  | .fragmentStart, b =>
    if isQueryChar b then some (.fragment, [.mark])
    else if b = 32 then some (.version 0, [.mark, .fragment]) else none
  | .fragment, b =>
    if isQueryChar b then some (.fragment, [])
    else if b = 32 then some (.version 0, [.fragment]) else none
  | .version n, b =>
    if n = 0 then if b = 72 then some (.version 1, [.mark]) else none
    else if n < 7 then if versionPrefix[n]? = some b then some (.version (n + 1), []) else none
    else if n = 7 then if b = 48 || b = 49 then some (.version 8, []) else none
    else if b = 13 then some (.cr, [.httpVersion]) else none
  | .cr, b => if b = 10 then some (.lineStart, []) else none
  | .lineStart, b =>
    if isTokenChar b then some (.name, [.startField])
    else if b = 13 then some (.lastCr, [.startField]) else none
  | .name, b =>
    if isTokenChar b then some (.name, [])
    else if b = 58 then some (.colon, [.writeField]) else none
  | .colon, b =>
    if isBlank b then some (.colon, [.startValue])
    else if isValueChar b then some (.value, [.startValue])
    else if b = 13 then some (.cr, [.startValue, .writeValue]) else none
  | .value, b =>
    if isBlank b || isValueChar b then some (.value, [])
    else if b = 13 then some (.cr, [.writeValue]) else none
  | .lastCr, b => if b = 10 then some (.finished, [.done]) else none
  | .finished, _ => none

@[reducible] def requestFragment : Fragment RequestAction where
  Place := RequestPlace
  start := .start
  final := .finished
  step f b := (requestStep f b).map fun r => (r.1, [r.2])

instance : DecidableEq requestFragment.Place := inferInstanceAs (DecidableEq RequestPlace)

/-- Actions that only set a flag of the scanner. -/
def RequestAction.isFlag : RequestAction → Bool
  | .xml | .json => true
  | _ => false

/-! ### The fragment as a table -/

/-- The table in which every other byte is an error. -/
@[reducible] def requestFragmentTable : RequestTable := requestFragment.complete

section Step

variable {f g : RequestPlace} {b : UInt8} {acts : List RequestAction}

theorem isFlag_of_step (h : requestStep f b = some (g, acts)) : ∀ a ∈ acts, a.isFlag = false := by
  cases f <;> grind [requestStep, uriEnd, RequestAction.isFlag]

/-- The fragment stops exactly where it ends. -/
theorem requestStep_finished (h : requestStep f b = some (.finished, acts)) : acts = [.done] := by
  cases f <;> grind [requestStep, uriEnd]

/-- The fragment ends exactly where it stops. -/
theorem requestStep_done (h : requestStep f b = some (g, acts)) (ha : .done ∈ acts) :
    g = .finished := by
  cases f <;> grind [requestStep, uriEnd]

/-- The places in front of the first blank. -/
def RequestPlace.Early (f : RequestPlace) : Prop := f = .start ∨ ∃ n, f = .method n

theorem isMethodChar_blank : isMethodChar 32 = false := by decide

/-- The places in front of the first blank are entered from such places, and not with a blank. -/
theorem early_of_step (h : requestStep f b = some (g, acts)) (hg : g.Early) :
    f.Early ∧ b ≠ 32 := by
  cases f <;> grind [requestStep, uriEnd, RequestPlace.Early, isMethodChar_blank]

/-- The method is reported at the blank behind it. -/
theorem method_of_step (h : requestStep f b = some (g, acts)) (ha : .requestMethod ∈ acts) :
    (∃ n, f = .method n) ∧ b = 32 := by
  cases f <;> grind [requestStep, uriEnd]

end Step

theorem requestStep_of_next {q : Option RequestPlace} {b : UInt8} {g : RequestPlace}
    (h : (requestFragmentTable.next q b).1 = some g) :
    ∃ f acts, q = some f ∧ requestStep f b = some (g, acts) ∧
      (requestFragmentTable.next q b).2 = acts := by
  obtain ⟨f, opts, hq, hstep, hacts⟩ := Fragment.of_complete_next h
  obtain ⟨⟨g', acts⟩, hr, heq⟩ := Option.map_eq_some_iff.mp hstep
  obtain ⟨rfl, rfl⟩ := Prod.mk.inj heq
  exact ⟨f, acts, hq, hr, hacts⟩

/-- In front of the first blank there is no blank. -/
theorem blank_not_mem_of_early {w : Bytes} {f : RequestPlace} (hf : f.Early)
    (h : requestFragmentTable.after requestFragmentTable.start w = some f) : 32 ∉ w := by
  induction w using List.reverseRecOn generalizing f with
  | nil => exact List.not_mem_nil
  | append_singleton w b ih =>
    rw [Automaton.after_append] at h
    obtain ⟨f', acts, hf', hstep, -⟩ := requestStep_of_next (b := b) h
    obtain ⟨hearly, hb⟩ := early_of_step hstep hf
    rw [List.mem_append, List.mem_singleton]
    rintro (hw | rfl)
    · exact ih hearly hf' hw
    · exact hb rfl

theorem method_of_next {q : Option RequestPlace} {b : UInt8}
    (h : .requestMethod ∈ (requestFragmentTable.next q b).2) :
    (∃ n, q = some (.method n)) ∧ b = 32 := by
  cases hnext : (requestFragmentTable.next q b).1 with
  | none =>
    rw [Fragment.complete_next_error hnext] at h
    cases h
  | some g =>
    obtain ⟨f, acts, rfl, hstep, hacts⟩ := requestStep_of_next hnext
    rw [hacts] at h
    obtain ⟨⟨n, rfl⟩, rfl⟩ := method_of_step hstep h
    exact ⟨⟨n, rfl⟩, rfl⟩

/-- The completed fragment has the facts that are taken from the generated table. -/
theorem generated_fragmentTable : Generated requestFragmentTable where
  done_of_final q b h := by
    have hnext : (requestFragmentTable.next q b).1 = some .finished := of_decide_eq_true h
    obtain ⟨f, acts, -, hstep, hacts⟩ := requestStep_of_next hnext
    rw [hacts, requestStep_finished hstep]
    rfl
  start_not_final := rfl
  error_of_error _ := rfl
  method_at_blank w b h := by
    obtain ⟨⟨n, hn⟩, rfl⟩ := method_of_next h
    exact ⟨rfl, blank_not_mem_of_early (.inr ⟨n, rfl⟩) hn⟩
  error_of_search w h := by
    obtain ⟨⟨n, hn⟩, -⟩ := method_of_next h
    rw [Automaton.after_append, hn]
    rfl

/-- The completed fragment follows the fragment. -/
theorem follows_fragmentTable :
    Follows requestFragmentTable requestFragment RequestAction.isFlag fun f q => q = some f := by
  refine Fragment.follows_complete fun f b f' opts h => ?_
  obtain ⟨⟨g, acts⟩, hstep, hr⟩ := Option.map_eq_some_iff.mp h
  obtain ⟨-, rfl⟩ := Prod.mk.inj hr
  exact ⟨List.mem_singleton.mpr rfl, isFlag_of_step hstep⟩

end Muhui.Http
