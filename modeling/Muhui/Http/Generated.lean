/-
  The generated scanners have the grammar that is asked of their tables.

  What is proved of the parsers rests on properties of the tables.  Here they are computed from the
  rows of the scanners that the repository has, and the results about a table become results about
  these two.
-/
import Muhui.Http.RequestTable
import Muhui.Http.ResponceTable
import Muhui.Http.EndOfStream
import Muhui.Http.Server

namespace Muhui.Http

open Scanner
open Servlet (ServletDispatch)

/-! ### Requests -/

/-- The state in which the generated request scanner is at a place. -/
def RequestPlace.states : RequestPlace → List ℕ
  | .start => [1]
  | .method n => if n = 1 then [2] else if 2 ≤ n ∧ n ≤ 20 then [173 + n] else []
  | .uri => [3]
  | .slash => [33]
  | .path => [26]
  | .queryStart => [29]
  | .query => [30]
  | .fragmentStart => [20]
  | .fragment => [21]
  | .version n => if n ≤ 8 then [4 + n] else []
  | .cr => [17]
  | .lineStart => [13]
  | .name => [14]
  | .colon => [15]
  | .value => [16]
  | .lastCr => [18]
  | .finished => [348]

def requestPlaces : List RequestPlace :=
  [.start, .uri, .slash, .path, .queryStart, .query, .fragmentStart, .fragment, .cr, .lineStart,
    .name, .colon, .value, .lastCr, .finished] ++ (List.range' 1 20).map .method ++
    (List.range 9).map .version

theorem mem_requestPlaces {f : RequestPlace} {q : ℕ} (h : q ∈ f.states) : f ∈ requestPlaces := by
  cases f with
  | method n =>
    have hn : 1 ≤ n ∧ n ≤ 20 := by
      simp only [RequestPlace.states] at h
      split_ifs at h
      · omega
      · omega
      · simp at h
    simp only [requestPlaces, List.mem_append, List.mem_map, List.mem_range'_1]
    exact .inl (.inr ⟨n, by omega, rfl⟩)
  | version n =>
    have hn : n ≤ 8 := by
      simp only [RequestPlace.states] at h
      split_ifs at h
      · assumption
      · simp at h
    simp only [requestPlaces, List.mem_append, List.mem_map, List.mem_range]
    exact .inr ⟨n, by omega, rfl⟩
  | _ => simp [requestPlaces]

theorem followsCheck_httpParser (uri_relaxed : Bool) :
    followsCheck requestFragment RequestAction.isFlag RequestPlace.states requestPlaces
      (httpParserRows uri_relaxed) = true := by
  cases uri_relaxed <;> decide +kernel

/-- The generated request scanner reads what the grammar of a printed request has, with the actions
that the grammar has there. -/
theorem follows_httpParser (uri_relaxed : Bool) :
    Follows (httpParser uri_relaxed) requestFragment RequestAction.isFlag
      fun f q => q ∈ f.states := by
  refine follows_of_check (fun _ _ => mem_requestPlaces) (by decide) (fun f h => ?_) (by decide)
    (followsCheck_httpParser uri_relaxed)
  cases f with
  | method n | version n =>
    simp only [RequestPlace.states] at h
    split_ifs at h <;> simp only [List.mem_singleton, List.not_mem_nil] at h <;> omega
  | _ => simp [RequestPlace.states] at h

/-- The states in front of the first blank. -/
def early (q : ℕ) : Bool := q == 1 || q == 2 || (175 ≤ q && q ≤ 193)

/-- What holds of every entry: it stops the scanner exactly where it is final, it leaves the states
in front of the first blank with a blank, and the method is reported there. -/
def entryCheck (q : ℕ) (e : Entry RequestAction) : Bool :=
  (Nat.ble 348 e.target == e.acts.any RequestAction.stops) &&
    (!early e.target || early q && !e.covers 32) &&
    (!e.acts.contains .requestMethod || early q && e.target == 3 && e.ranges == [(32, 32)])

theorem entryCheck_httpParser (uri_relaxed : Bool) :
    rowsAll entryCheck (httpParserRows uri_relaxed) = true := by
  cases uri_relaxed <;> decide +kernel

section Moves

variable {uri_relaxed : Bool} {q : ℕ} {b : UInt8}

theorem next_httpParser (uri_relaxed : Bool) (q : ℕ) (b : UInt8) :
    (httpParser uri_relaxed).next q b = (0, []) ∨
      ∃ e, entryCheck q e = true ∧ e.covers b = true ∧
        (httpParser uri_relaxed).next q b = (e.target, e.acts) :=
  next_of_rowsAll (entryCheck_httpParser uri_relaxed) q b

/-- The scanner stops exactly in its final states. -/
theorem final_next_httpParser (uri_relaxed : Bool) (q : ℕ) (b : UInt8) :
    (httpParser uri_relaxed).isFinal ((httpParser uri_relaxed).next q b).1 =
      ((httpParser uri_relaxed).next q b).2.any RequestAction.stops := by
  rcases next_httpParser uri_relaxed q b with hnext | ⟨e, hcheck, -, hnext⟩
  · rw [hnext]
    rfl
  · rw [hnext]
    simp only [entryCheck, Bool.and_eq_true, beq_iff_eq] at hcheck
    exact hcheck.1.1

theorem early_of_next (h : early ((httpParser uri_relaxed).next q b).1 = true) :
    early q = true ∧ b ≠ 32 := by
  rcases next_httpParser uri_relaxed q b with hnext | ⟨e, hcheck, hcovers, hnext⟩
  · rw [hnext] at h
    cases h
  · rw [hnext] at h
    simp only [entryCheck, h, Bool.and_eq_true, Bool.or_eq_true, Bool.not_eq_true'] at hcheck
    obtain ⟨hearly, hblank⟩ := hcheck.1.2.resolve_left nofun
    refine ⟨hearly, ?_⟩
    rintro rfl
    rw [hcovers] at hblank
    cases hblank

theorem method_of_next_httpParser (h : .requestMethod ∈ ((httpParser uri_relaxed).next q b).2) :
    early q = true ∧ b = 32 ∧ ((httpParser uri_relaxed).next q b).1 = 3 := by
  rcases next_httpParser uri_relaxed q b with hnext | ⟨e, hcheck, hcovers, hnext⟩
  · rw [hnext] at h
    cases h
  · rw [hnext] at h ⊢
    have hacts : e.acts.contains .requestMethod = true := List.contains_iff_mem.mpr h
    simp only [entryCheck, hacts, Bool.and_eq_true, Bool.or_eq_true, Bool.not_true, beq_iff_eq]
      at hcheck
    obtain ⟨⟨hearly, htarget⟩, hranges⟩ := hcheck.2.resolve_left nofun
    refine ⟨hearly, ?_, htarget⟩
    rw [Entry.covers, hranges, inRanges] at hcovers
    simp only [List.any_cons, List.any_nil, Bool.or_false, Bool.and_eq_true, Nat.ble_eq] at hcovers
    exact UInt8.toNat_inj.mp (Nat.le_antisymm hcovers.2 hcovers.1)

/-- In front of the first blank there is no blank. -/
theorem blank_not_mem_of_after {w : Bytes}
    (h : early ((httpParser uri_relaxed).after (httpParser uri_relaxed).start w) = true) :
    32 ∉ w := by
  induction w using List.reverseRecOn with
  | nil => exact List.not_mem_nil
  | append_singleton w b ih =>
    rw [Automaton.after_append] at h
    obtain ⟨hearly, hb⟩ := early_of_next h
    rw [List.mem_append, List.mem_singleton]
    rintro (hw | rfl)
    · exact ih hearly hw
    · exact hb rfl

end Moves

/-- What was taken from the table of the generated request scanner is so. -/
theorem generated_httpParser (uri_relaxed : Bool) : Generated (httpParser uri_relaxed) where
  done_of_final q b h := (final_next_httpParser uri_relaxed q b).symm.trans h
  start_not_final := rfl
  error_of_error _ := rfl
  method_at_blank w b h := by
    obtain ⟨hearly, hb, -⟩ := method_of_next_httpParser h
    exact ⟨hb, blank_not_mem_of_after hearly⟩
  error_of_search w h := by
    obtain ⟨-, -, hnext⟩ := method_of_next_httpParser h
    rw [Automaton.after_append]
    show (httpParser uri_relaxed).after
      ((httpParser uri_relaxed).next ((httpParser uri_relaxed).after 1 w) 32).1 (bytes "- S") = 0
    rw [hnext]
    cases uri_relaxed <;> decide +kernel

theorem stopsFinal_httpParser (uri_relaxed : Bool) : StopsFinal (httpParser uri_relaxed) where
  start_not_final := rfl
  start_not_error := Nat.one_ne_zero
  final_of_done q b h := (final_next_httpParser uri_relaxed q b).trans h

/-! ### Responses -/

/-- The states in which the generated response scanner may be at a place. -/
def ResponcePlace.states : ResponcePlace → List ℕ
  | .version n => if n = 0 then [1] else if n ≤ 8 then [7 + n] else []
  | .statusStart => [16]
  | .status => [17]
  | .reasonStart => [18]
  | .reason => [19]
  | .cr => [24, 71, 88]
  | .lineStart => [20, 43]
  | .name =>
    21 :: List.range' 25 10 ++ List.range' 44 17 ++ List.range' 73 7 ++ List.range' 90 5 ++
      List.range' 101 11 ++ [117]
  | .colon => [22, 35, 61, 112]
  | .value => 23 :: List.range' 81 7 ++ List.range' 96 5 ++ [119]
  | .emptyCr => [24, 80, 95, 118]
  | .afterEmpty => [20, 36, 62, 113]
  | .lastCr => [3]
  | .finished => [120]

def responcePlaces : List ResponcePlace :=
  [.statusStart, .status, .reasonStart, .reason, .cr, .lineStart, .name, .colon, .value, .emptyCr,
    .afterEmpty, .lastCr, .finished] ++ (List.range 9).map .version

theorem mem_responcePlaces {f : ResponcePlace} {q : ℕ} (h : q ∈ f.states) :
    f ∈ responcePlaces := by
  cases f with
  | version n =>
    have hn : n ≤ 8 := by
      simp only [ResponcePlace.states] at h
      split_ifs at h
      · omega
      · assumption
      · simp at h
    simp only [responcePlaces, List.mem_append, List.mem_map, List.mem_range]
    exact .inr ⟨n, by omega, rfl⟩
  | _ => simp [responcePlaces]

theorem followsCheck_httpclientParser :
    followsCheck responceFragment ResponceAction.isFlag ResponcePlace.states responcePlaces
      httpclientParserRows = true := by
  decide +kernel

/-- The generated response scanner reads what the grammar of a printed response has, with the
actions that the grammar has there. -/
theorem follows_httpclientParser :
    Follows httpclientParser responceFragment ResponceAction.isFlag fun f q => q ∈ f.states := by
  refine follows_of_check (fun _ _ => mem_responcePlaces) (by decide) (fun f h => ?_) (by decide)
    followsCheck_httpclientParser
  cases f with
  | version n =>
    simp only [ResponcePlace.states] at h
    split_ifs at h <;> simp only [List.mem_singleton, List.not_mem_nil] at h <;> omega
  | _ => simp [ResponcePlace.states] at h

/-! ### What follows of these two -/

/-- **The generated scanners.** Whatever `uri_relaxed` holds, the scanners in the repository have
the grammar of a printed request and of a printed response, with its actions, and the properties
that the reading of requests rests on. -/
theorem scanners_right (uri_relaxed : Bool) :
    Follows (httpParser uri_relaxed) requestFragment RequestAction.isFlag
        (fun f q => q ∈ f.states) ∧
      Generated (httpParser uri_relaxed) ∧ StopsFinal (httpParser uri_relaxed) ∧
      Follows httpclientParser responceFragment ResponceAction.isFlag fun f q => q ∈ f.states :=
  ⟨follows_httpParser uri_relaxed, generated_httpParser uri_relaxed,
    stopsFinal_httpParser uri_relaxed, follows_httpclientParser⟩

/-- The end of the stream, with the scanner that the repository has. -/
theorem terminates_generated (uri_relaxed : Bool) (buffSize : ℕ) {socket : Socket}
    (hs : Arrivals socket) (mem : Uninit) :
    let v := verdict buffSize (.new (httpParser uri_relaxed) mem.queryStart) mem.heap
      (readsOf buffSize socket)
    Terminates v (recvRequest (httpParser uri_relaxed) buffSize mem socket).1 ↔ v.Answers :=
  have hstops := stopsFinal_httpParser uri_relaxed
  (recvHeader_matches buffSize mem.heap hstops hs (wants_new hstops mem.queryStart)
    (Nat.lt_succ_self _)).terminates_iff_answers

theorem takes_drips : Takes drips := by
  intro data x hdata
  have hpos : 0 < data.length := List.length_pos_iff.mpr hdata
  show 0 < ((data.take 1).length : ℤ)
  rw [List.length_take]
  omega

def missing : HttpRequest := { path := bytes "/a" }

/-- The answer of the default servlet. -/
def notFound : HttpResponce :=
  ((((HttpServer.new false : HttpServer Unit).response missing.parsed).setStatus 404).setHeader
    (bytes "Content-Type") (bytes "text/html")).setBody
      (bytes "<html><head><title>404 Not Found" ++
        bytes "</title></head><body><center><h1>404 Not Found</h1></center>" ++
        bytes "<hr><center>" ++ bytes "muhui/1.0.0" ++ bytes "</center></body></html>")

theorem printable_missing : missing.Printable where
  websocket := rfl
  version := .inr rfl
  method := by decide
  path := ⟨bytes "a", by decide, by decide, by decide⟩
  query := by decide
  fragment := by decide
  names := by decide
  values := by decide
  unframed := by decide

theorem printable_notFound : notFound.spelled.Printable where
  websocket := rfl
  version := .inr rfl
  reason := by decide
  names := by decide
  values := by decide
  unframed := by decide
  cookies := rfl

end Muhui.Http
