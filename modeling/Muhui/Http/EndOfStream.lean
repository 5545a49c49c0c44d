/-
  The end of the stream.

  When the peer has closed, every further read brings 0 bytes.  The header loop only gives up on a
  negative result, so it goes on reading.  `verdict` says what the parser makes of the reads that
  bring something; whether a call returns, and returns a null pointer for a request that is not
  complete, can be told from it (`terminates_iff`).
-/
import Muhui.Http.BodyLength

namespace Muhui.Http

open Scanner

variable {T : RequestTable} {buffSize : ℕ}

/-! ### The reads -/

/-- The reads of at most `n` bytes in front of the first one that fails or brings nothing. -/
def readsOf (n : ℕ) (s : Socket) : List Bytes :=
  match _h : read n s with
  | (none, _) => []
  | (some c, s') => if _hc : c = [] then [] else c :: readsOf n s'
termination_by readsLeft s
decreasing_by exact readsLeft_lt_of_read _h _hc

theorem readsOf_nil {n : ℕ} {s s' : Socket} (h : read n s = (some [], s')) : readsOf n s = [] := by
  rw [readsOf]
  split
  · rfl
  · rename_i c t heq
    rw [heq] at h
    rw [dif_pos (Option.some.inj (Prod.mk.inj h).1)]

theorem readsOf_cons {n : ℕ} {s s' : Socket} {c : Bytes} (h : read n s = (some c, s'))
    (hc : c ≠ []) : readsOf n s = c :: readsOf n s' := by
  rw [readsOf]
  split
  · rename_i heq
    rw [heq] at h
    cases h
  · rename_i c' t heq
    rw [heq] at h
    obtain ⟨rfl, rfl⟩ : c' = c ∧ t = s' := by simpa using h
    rw [dif_neg hc]

/-- The reads bring all the arriving bytes. -/
theorem flatten_readsOf {n : ℕ} {s : Socket} (hn : 0 < n) :
    (readsOf n s).flatten = arriving s := by
  induction hk : readsLeft s using Nat.strong_induction_on generalizing s with
  | _ k ih =>
    rcases arriving_of_read (s := s) hn with
      ⟨hread, hnil⟩ | ⟨hread, hnil⟩ | ⟨c, s', hread, hc, happend⟩
    · rw [hnil, readsOf]
      split
      · rfl
      · rename_i heq
        rw [heq] at hread
        cases hread
    · have hempty : read n s = (some [], (read n s).2) := Prod.ext hread rfl
      rw [hnil, readsOf_nil hempty]
      rfl
    · rw [readsOf_cons hread hc, List.flatten_cons, happend,
        ih (readsLeft s') (hk ▸ readsLeft_lt_of_read hread hc) rfl]

/-! ### What the parser makes of them -/

/-- What the parser makes of the reads up to the end of the stream. -/
inductive Verdict (T : RequestTable)
  /-- The header section is not complete. -/
  | unfinished
  /-- A callback throws. -/
  | threw
  /-- The parser reports an error, or the buffer counts as full. -/
  | refused
  /-- The header section is complete, and `left` bytes follow it. -/
  | finished (parser : HttpRequestParser T) (left : ℕ)

/-- The parser is fed one read after the other, each at the front of the buffer. -/
def verdict (buffSize : ℕ) : HttpRequestParser T → Bytes → List Bytes → Verdict T
  | _, _, [] => if toInt buffSize = 0 then .refused else .unfinished
  | parser, data, c :: reads =>
    match parser.execute (c ++ data.drop c.length) c.length with
    | none => .threw
    | some (nparser, parser, data) =>
      if parser.hasError then .refused
      else if ((c.length - nparser : ℕ) : ℤ) = toInt buffSize then .refused
      else if parser.isFinished ≠ 0 then
        .finished parser (c.length - nparser + reads.flatten.length)
      else verdict buffSize parser data reads

namespace Verdict

/-- The stream ends inside the header section or inside the announced body. -/
def Incomplete : Verdict T → Prop
  | .unfinished => True
  | .finished parser left => left < parser.getcontentLength
  | .threw | .refused => False

/-- The parser refuses the header section, or it is complete and the announced body is too, or ends
before the length that is left of it as an `int`. -/
def Answers : Verdict T → Prop
  | .refused => True
  | .finished parser left =>
    parser.getcontentLength ≤ left ∨ (left : ℤ) < toInt parser.getcontentLength
  | .unfinished | .threw => False

instance decidableAnswers : DecidablePred (Answers (T := T))
  | .refused => isTrue trivial
  | .finished _ _ => inferInstanceAs (Decidable (_ ∨ _))
  | .unfinished | .threw => isFalse id

/-- How the header loop ends on a verdict. -/
inductive Matches : Verdict T → Except Outcome (HttpRequestParser T × Bytes × ℕ) × Socket → Prop
  | unfinished {s : Socket} : Matches .unfinished (.error .spins, s)
  | threw {s : Socket} : Matches .threw (.error .threw, s)
  | refused {s : Socket} : Matches .refused (.error .closed, s)
  | finished {parser : HttpRequestParser T} {data : Bytes} {offset : ℕ} {s : Socket} :
    Matches (.finished parser (offset + (arriving s).length)) (.ok (parser, data, offset), s)

end Verdict

/-- A call that ends as `o` on a stream with the verdict `v` returns, and returns a null pointer
when the request is not complete. -/
structure Terminates (v : Verdict T) (o : Outcome) : Prop where
  returns : o = .closed ∨ ∃ r, o = .request r
  null : v.Incomplete → o = .closed

/-! ### The header loop at the end of the stream -/

/-- Facts of the generated table: a parse begins in a state that is neither final nor the error
state, and `done` leads into a final state. -/
structure StopsFinal (T : RequestTable) : Prop where
  start_not_final : T.isFinal T.start = false
  start_not_error : T.start ≠ T.error
  final_of_done : ∀ q b, (T.next q b).2.any RequestAction.stops = true →
    T.isFinal (T.next q b).1 = true

/-- The parser wants more. -/
structure Wants (parser : HttpRequestParser T) : Prop where
  noError : parser.hasError = false
  notFinished : parser.isFinished = 0

theorem wants_new (hT : StopsFinal T) (queryStart : ℕ) :
    Wants (HttpRequestParser.new T queryStart) where
  noError := hasError_eq_false_iff.mpr ⟨rfl, hT.start_not_error⟩
  notFinished := isFinished_eq_zero_iff.mpr ⟨hT.start_not_error, hT.start_not_final⟩

theorem execute_zero (parser : HttpRequestParser T) (data : Bytes) :
    parser.execute data 0 = some (0, parser, data) := rfl

/-- A parser that wants more has consumed all it was given. -/
theorem consumed_of_wants (hT : StopsFinal T) {parser parser' : HttpRequestParser T}
    {c rest data' : Bytes} {k : ℕ}
    (h : parser.execute (c ++ rest) c.length = some (k, parser', data')) (hwants : Wants parser') :
    k = c.length := by
  rcases HttpRequestParser.httpParserExecute_cases (HttpRequestParser.of_execute h).1 with
    ⟨hzero, rfl, -⟩ | ⟨-, -, hscan⟩
  · exact hzero.symm
  · rw [List.take_left] at hscan
    have halive := (hasError_eq_false_iff.mp hwants.noError).2
    rcases (scan_end hscan).2 with hall | hdead | ⟨q₀, b, hstop, hq⟩
    · rw [hall, Nat.zero_add]
    · exact absurd hdead halive
    · -- the scanner stops in a final state only
      have hfin : parser'.isFinished = 1 :=
        isFinished_eq_one_iff.mpr ⟨halive, by rw [hq]; exact hT.final_of_done q₀ b hstop⟩
      exact absurd (hwants.notFinished.symm.trans hfin) (by norm_num)

/-- No number of reads is enough at the end of the stream. -/
theorem recvHeader_idle (hsize : toInt buffSize ≠ 0) {parser : HttpRequestParser T}
    (hwants : Wants parser) (data : Bytes) (reads : ℕ) :
    recvHeader T buffSize reads parser data 0 [] = (.error .spins, []) := by
  induction reads with
  | zero => rfl
  | succ reads ih =>
    have hread : read buffSize [] = (some [], []) := rfl
    have hfull : ((0 - 0 : ℕ) : ℤ) ≠ toInt buffSize := fun h => hsize h.symm
    rw [recvHeader_zero hread]
    simp only [List.length_nil, List.nil_append, List.drop_zero, execute_zero, hwants.noError,
      hwants.notFinished, Bool.false_eq_true, if_false, hfull, ne_eq, not_true_eq_false]
    exact ih

/-- A read on a stream that does not fail; in front of its end it brings something, unless it has no
room. -/
theorem read_of_arrivals {n : ℕ} {s : Socket} (hs : Arrivals s) :
    ∃ c s', read n s = (some c, s') ∧ (c = [] → s = [] ∨ n = 0) := by
  match s with
  | [] => exact ⟨[], [], rfl, fun _ => .inl rfl⟩
  | none :: s =>
    obtain ⟨b, hb, -⟩ := hs.head
    cases hb
  | some c :: s =>
    obtain ⟨b, hb, hne⟩ := hs.head
    obtain rfl := Option.some.inj hb
    rw [read]
    split_ifs with hle
    · exact ⟨c, s, rfl, fun h => absurd h hne⟩
    · refine ⟨c.take n, some (c.drop n) :: s, rfl, fun h => .inr ?_⟩
      rcases List.take_eq_nil_iff.mp h with h | h
      · exact h
      · exact absurd h hne

/-- The header loop ends as the verdict says. -/
theorem recvHeader_matches (buffSize : ℕ) (data : Bytes) (hT : StopsFinal T) {reads : ℕ}
    {parser : HttpRequestParser T} {s : Socket} (hs : Arrivals s) (hwants : Wants parser)
    (hreads : readsLeft s < reads) :
    (verdict buffSize parser data (readsOf buffSize s)).Matches
      (recvHeader T buffSize reads parser data 0 s) := by
  induction reads generalizing parser data s with
  | zero => exact absurd hreads (Nat.not_lt_zero _)
  | succ reads ih =>
    obtain ⟨c, s', hread, hempty⟩ := read_of_arrivals (n := buffSize) hs
    by_cases hc : c = []
    · -- the end of the stream, or a buffer without room
      subst hc
      rw [readsOf_nil hread, verdict]
      by_cases hsize : toInt buffSize = 0
      · have hfull : ((0 - 0 : ℕ) : ℤ) = toInt buffSize := hsize.symm
        rw [if_pos hsize, recvHeader_zero hread]
        simp only [List.length_nil, List.nil_append, List.drop_zero, execute_zero, hwants.noError,
          Bool.false_eq_true, if_false, hfull, if_true]
        exact .refused
      · have hnil : s = [] := by
          rcases hempty rfl with hnil | hzero
          · exact hnil
          · exact absurd (hzero ▸ rfl) hsize
        rw [if_neg hsize, hnil, recvHeader_idle hsize hwants]
        exact .unfinished
    · have hpos : 0 < buffSize :=
        (List.length_pos_iff.mpr hc).trans_le (length_le_of_read hread)
      have hs' : Arrivals s' := (read_content hs hread).2
      rw [readsOf_cons hread hc, verdict, recvHeader_zero hread]
      cases hexec : parser.execute (c ++ data.drop c.length) c.length with
      | none => exact .threw
      | some r =>
        obtain ⟨k, parser', data'⟩ := r
        simp only
        split_ifs with herror hfull hfinished
        · exact .refused
        · exact .refused
        · rw [flatten_readsOf hpos]
          exact .finished
        · have hwants' : Wants parser' := ⟨by simpa using herror, by simpa using hfinished⟩
          have hall := consumed_of_wants hT hexec hwants'
          rw [hall, Nat.sub_self]
          have hless := readsLeft_lt_of_read hread hc
          exact ih data' hs' hwants' (by omega)

/-! ### A call at the end of the stream -/

/-- What a header loop that ends as the verdict says makes of the call. -/
theorem Verdict.Matches.terminates_iff_answers {v : Verdict T} {socket : Socket} {mem : Uninit}
    (h : v.Matches (recvHeader T buffSize (readsLeft socket + 1) (.new T mem.queryStart) mem.heap 0
      socket)) :
    Terminates v (recvRequest T buffSize mem socket).1 ↔ v.Answers := by
  generalize hx : recvHeader T buffSize (readsLeft socket + 1) (.new T mem.queryStart) mem.heap 0
    socket = x at h
  cases h with
  | unfinished =>
    have hcall : (recvRequest T buffSize mem socket).1 = .spins := recvRequest_error hx
    rw [hcall]
    exact iff_of_false (fun h => by simpa using h.returns) id
  | threw =>
    have hcall : (recvRequest T buffSize mem socket).1 = .threw := recvRequest_error hx
    rw [hcall]
    exact iff_of_false (fun h => by simpa using h.returns) id
  | refused =>
    have hcall : (recvRequest T buffSize mem socket).1 = .closed := recvRequest_error hx
    rw [hcall]
    exact iff_of_true ⟨.inl rfl, fun _ => rfl⟩ trivial
  | @finished parser data offset s =>
    obtain ⟨hoffset, hbody⟩ := recvHeader_left hx (Nat.zero_le _) rfl
    rw [recvRequest_eq_body hx]
    constructor
    · intro h
      by_contra hnot
      obtain ⟨hshort, hlong⟩ := not_or.mp hnot
      obtain ⟨r, hr, -⟩ := recvBody_request hoffset hbody (not_lt.mp hlong)
      -- the body is not complete, and yet a request is returned
      have hclosed := h.null (not_le.mp hshort)
      rw [hr] at hclosed
      cases hclosed
    · intro hanswers
      by_cases hlong : toInt parser.getcontentLength ≤ (offset + (arriving s).length : ℕ)
      · obtain ⟨r, hr, -⟩ := recvBody_request hoffset hbody hlong
        refine ⟨.inr ⟨r, hr⟩, fun hincomplete => ?_⟩
        rcases hanswers with hall | hshort
        · exact absurd hall (not_le.mpr hincomplete)
        · exact absurd hshort (not_lt.mpr hlong)
      · have hclosed : (recvBody T parser data offset s).1 = .closed :=
          recvBody_short (not_le.mp hlong)
        exact ⟨.inl hclosed, fun _ => hclosed⟩

/-- On every stream that ends, however it is cut into reads, a call returns, and returns a null
pointer for a request that is not complete, exactly when the verdict on the reads is an answer. -/
theorem terminates_iff (hT : StopsFinal T) {socket : Socket} (hs : Arrivals socket)
    (mem : Uninit) :
    Terminates (verdict buffSize (.new T mem.queryStart) mem.heap (readsOf buffSize socket))
        (recvRequest T buffSize mem socket).1 ↔
      (verdict buffSize (.new T mem.queryStart) mem.heap (readsOf buffSize socket)).Answers :=
  (recvHeader_matches buffSize mem.heap hT hs (wants_new hT mem.queryStart)
    (Nat.lt_succ_self _)).terminates_iff_answers

/-- The completed fragment stops in its final state only. -/
theorem stopsFinal_fragmentTable : StopsFinal requestFragmentTable where
  start_not_final := rfl
  start_not_error := Option.some_ne_none _
  final_of_done q b h := by
    obtain ⟨a, ha, hstops⟩ := List.any_eq_true.mp h
    obtain rfl : a = .done := of_decide_eq_true hstops
    cases hnext : (requestFragmentTable.next q b).1 with
    | none =>
      rw [Fragment.complete_next_error hnext] at ha
      cases ha
    | some g =>
      obtain ⟨f, acts, -, hstep, hacts⟩ := requestStep_of_next hnext
      rw [hacts] at ha
      rw [requestStep_done hstep ha]
      rfl

/-- The stream ends in the body, behind the first of its two bytes. -/
theorem terminates_post :
    Terminates
      (verdict 4096 (.new requestFragmentTable 0) (List.replicate 4096 0)
        (readsOf 4096 [some (postMessage.header ++ [97])]))
      (recvRequest requestFragmentTable 4096 ⟨List.replicate 4096 0, 0⟩
        [some (postMessage.header ++ [97])]).1 := by
  have hs : Arrivals [some (postMessage.header ++ [97])] :=
    Arrivals.cons (fun _ h => absurd h List.not_mem_nil) (by decide)
  refine (terminates_iff stopsFinal_fragmentTable hs ⟨List.replicate 4096 0, 0⟩).mpr ?_
  have hreads : readsOf 4096 [some (postMessage.header ++ [97])] =
      [postMessage.header ++ [97]] := by
    have hread : read 4096 [some (postMessage.header ++ [97])] =
        (some (postMessage.header ++ [97]), []) := by
      decide
    rw [readsOf_cons hread (by decide), readsOf_nil rfl]
  rw [hreads]
  decide +kernel

/-- A peer that closes at once, or inside the request line, leaves the call reading for ever. -/
theorem spins_at_end :
    (recvRequest requestFragmentTable 4096 ⟨List.replicate 4096 0, 0⟩ []).1 = .spins ∧
      (recvRequest requestFragmentTable 4096 ⟨List.replicate 4096 0, 0⟩
        [some (bytes "GET / HT")]).1 = .spins ∧
      ¬Terminates
        (verdict 4096 (.new requestFragmentTable 0) (List.replicate 4096 0) (readsOf 4096 []))
        (recvRequest requestFragmentTable 4096 ⟨List.replicate 4096 0, 0⟩ []).1 := by
  have hspins :
      (recvRequest requestFragmentTable 4096 ⟨List.replicate 4096 0, 0⟩ []).1 = .spins := by
    decide +kernel
  refine ⟨hspins, by decide +kernel, fun h => ?_⟩
  have hreturns := h.returns
  rw [hspins] at hreturns
  simp at hreturns

end Muhui.Http
