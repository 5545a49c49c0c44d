/-
  `execute` down to the memory it moves.

  Both parsers hand what the generated function returns to `memmove` as a `size_t`.  Their `execute`
  says what the move does when it stays inside the buffer; here the move itself is kept, as the
  place it reads from and the number of bytes it moves, so that a move in front of the buffer can be
  told apart.  A call that returns has passed the assertions of the generated function.
-/
import Muhui.Http.ResponceFragment
import Muhui.Http.RequestFragment

namespace Muhui.Http

open Scanner

/-! ### The move -/

/-- `memmove(data, data + source, count)` on the buffer `data`. -/
structure Move where
  source : ℤ
  count : ℕ
  deriving DecidableEq

/-- The conversion of an integer to `size_t`. -/
def sizeT (x : ℤ) : ℕ := (x % 2 ^ 64).toNat

/-- `memmove(data, data + offset, len - offset)` for an `offset` of type `size_t`; adding to a
pointer wraps around. -/
def moveOf (offset length : ℕ) : Move :=
  { source := Int.bmod offset (2 ^ 64), count := sizeT ((length : ℤ) - offset) }

/-- The bytes that are read and written lie among the first `length` of the buffer. -/
structure Move.Inside (m : Move) (length : ℕ) : Prop where
  read : ∀ i < m.count, 0 ≤ m.source + i ∧ m.source + i < length
  written : ∀ i < m.count, i < length

/-- The buffer behind the move; `none` when the move leaves the memory of the buffer. -/
def Move.apply (m : Move) (data : Bytes) : Option Bytes :=
  if m.source < 0 ∨ (data.length : ℤ) < m.source + m.count then none
  else some ((data.drop m.source.toNat).take m.count ++ data.drop m.count)

/-- A call of `execute` on the first `length` bytes of `data` that returns `k` keeps the buffer
consistent. -/
structure Keeps (data : Bytes) (length k : ℕ) (m : Move) : Prop where
  consumed : k ≤ length
  inside : m.Inside length
  moved : ∃ data', m.apply data = some data' ∧
    data'.take (length - k) = (data.take length).drop k ∧ data'.drop length = data.drop length

theorem two_pow_64 : 2 ^ 64 = 18446744073709551616 := by norm_num

theorem sizeT_natCast {n : ℕ} (hn : n < 2 ^ 64) : sizeT n = n := by
  unfold sizeT
  omega

theorem sizeT_neg_one : sizeT (-1) = 2 ^ 64 - 1 := by
  unfold sizeT
  omega

/-- With the failure code the move begins in front of the buffer. -/
theorem apply_failure (data : Bytes) (length : ℕ) :
    (moveOf (sizeT (-1)) length).apply data = none := by
  have hsource : (moveOf (sizeT (-1)) length).source = -1 := by
    unfold moveOf
    rw [sizeT_neg_one]
    show Int.bmod (2 ^ 64 - 1 : ℕ) (2 ^ 64) = -1
    rw [Int.bmod_def]
    omega
  rw [Move.apply, hsource]
  exact if_pos (.inl (by norm_num))

theorem moveOf_eq {k length : ℕ} (hk : k ≤ length) (hlength : length < 2 ^ 63) :
    moveOf k length = { source := k, count := length - k } := by
  have hsource : Int.bmod k (2 ^ 64) = k := by
    rw [two_pow_64]
    apply Int.bmod_eq_of_le
    · omega
    · omega
  have hcount : sizeT ((length : ℤ) - k) = length - k := by
    rw [← Nat.cast_sub hk]
    exact sizeT_natCast (by omega)
  unfold moveOf
  rw [hsource, hcount]

/-- The move of what is behind the consumed bytes. -/
theorem apply_moveOf {data : Bytes} {k length : ℕ} (hk : k ≤ length) (hlength : length < 2 ^ 63)
    (hdata : length ≤ data.length) :
    (moveOf k length).apply data =
      some ((data.take length).drop k ++ data.drop ((data.take length).drop k).length) := by
  have hcount : ((data.take length).drop k).length = length - k := by
    rw [List.length_drop, List.length_take_of_le hdata]
  rw [moveOf_eq hk hlength, Move.apply, hcount]
  rw [if_neg (by simp only; omega)]
  simp only [Int.toNat_natCast]
  rw [List.drop_take]

theorem keeps_moveOf {data : Bytes} {k length : ℕ} (hk : k ≤ length) (hlength : length < 2 ^ 63)
    (hdata : length ≤ data.length) : Keeps data length k (moveOf k length) := by
  have hcount : ((data.take length).drop k).length = length - k := by
    rw [List.length_drop, List.length_take_of_le hdata]
  refine ⟨hk, ⟨?_, ?_⟩, _, apply_moveOf hk hlength hdata, ?_, ?_⟩
  · intro i hi
    rw [moveOf_eq hk hlength] at hi ⊢
    simp only at hi ⊢
    omega
  · intro i hi
    rw [moveOf_eq hk hlength] at hi
    simp only at hi
    omega
  · rw [← hcount, List.take_left]
  · -- the moved bytes end where the consumed ones would have
    rw [List.drop_append, List.drop_eq_nil_of_le (by omega), List.nil_append, List.drop_drop,
      hcount]
    congr 1
    omega

/-! ### Both parsers -/

/-- `HttpRequestParser::execute`, with its move. -/
def HttpRequestParser.executeMoving {T : RequestTable} (parser : HttpRequestParser T) (data : Bytes)
    (length : ℕ) : Option (ℕ × HttpRequestParser T × Move) :=
  (parser.httpParserExecute data length).map fun r => (r.1, r.2, moveOf r.1 length)

/-- `HttpResponceParser::execute`, with its move. -/
def HttpResponceParser.executeMoving {T : ResponceTable} (parser : HttpResponceParser T)
    (data : Bytes) (length : ℕ) (chunck : Bool) : Option (ℕ × HttpResponceParser T × Move) :=
  let parser := if chunck then parser.init else parser
  (parser.httpclientParserExecute data length).map fun r =>
    (sizeT r.1, r.2, moveOf (sizeT r.1) length)

section Parsers

variable {T : RequestTable} {T' : ResponceTable} {data : Bytes} {length : ℕ}

/-- The assertion on the length keeps it far from wrapping around. -/
theorem lt_of_toInt (h : toInt length = length) : length < 2 ^ 63 :=
  (toInt_eq_iff.mp h).trans (by norm_num)

theorem httpParserExecute_le {parser parser' : HttpRequestParser T} {k : ℕ}
    (h : parser.httpParserExecute data length = some (k, parser')) :
    k ≤ length ∧ length < 2 ^ 63 := by
  rcases HttpRequestParser.httpParserExecute_cases h with ⟨rfl, rfl, -⟩ | ⟨-, hint, hscan⟩
  · exact ⟨le_rfl, by norm_num⟩
  · have hle := (scan_end hscan).1
    rw [List.length_take, Nat.zero_add] at hle
    exact ⟨hle.trans (Nat.min_le_left _ _), lt_of_toInt hint⟩

/-- The generated function of the responses fails its checks on the empty text, and only there. -/
theorem httpclientParserExecute_cases {parser parser' : HttpResponceParser T'} {offset : ℤ}
    (hdata : length ≤ data.length)
    (h : parser.httpclientParserExecute data length = some (offset, parser')) :
    length < 2 ^ 63 ∧ (length = 0 ∧ offset = -1 ∨
      length ≠ 0 ∧ ∃ k : ℕ, offset = k ∧ k ≤ length) := by
  unfold HttpResponceParser.httpclientParserExecute at h
  split_ifs at h with hassert
  rw [not_or, not_not, not_not] at hassert
  obtain ⟨⟨p, q, s⟩, hscan, heq⟩ := Option.map_eq_some_iff.mp h
  obtain ⟨rfl, -⟩ := Prod.mk.inj heq
  have htake : (data.take length).length = length := List.length_take_of_le hdata
  refine ⟨lt_of_toInt hassert.2, ?_⟩
  by_cases hzero : length = 0
  · refine .inl ⟨hzero, if_neg ?_⟩
    rintro ⟨hmark, -, -⟩
    omega
  · have hpiece : data.take length ≠ [] := fun h0 => hzero (by rw [← htake, h0, List.length_nil])
    have hchecked := registers_of_scan (fun _ _ _ _ h => (ResponceAction.step h).toRegisterStep)
      hpiece hscan ⟨rfl, rfl, rfl⟩
    have hle := (scan_end hscan).1
    rw [htake, Nat.zero_add] at hle
    rw [htake] at hchecked
    exact .inr ⟨hzero, p, if_pos hchecked, hle⟩

/-- `execute` is the call of the generated function and the move. -/
theorem HttpRequestParser.execute_eq_moving {parser : HttpRequestParser T}
    (hdata : length ≤ data.length) :
    parser.execute data length = (parser.executeMoving data length).bind fun r =>
      (r.2.2.apply data).map fun data' => (r.1, r.2.1, data') := by
  unfold execute executeMoving
  cases h : parser.httpParserExecute data length with
  | none => rfl
  | some r =>
    obtain ⟨k, parser'⟩ := r
    obtain ⟨hk, hlength⟩ := httpParserExecute_le h
    have hmove := apply_moveOf hk hlength hdata
    rw [Option.map_some, Option.map_some, Option.bind_some, hmove, Option.map_some]

theorem HttpResponceParser.execute_eq_moving {parser : HttpResponceParser T'} {chunck : Bool}
    (hdata : length ≤ data.length) :
    parser.execute data length chunck = (parser.executeMoving data length chunck).bind fun r =>
      (r.2.2.apply data).map fun data' => (r.1, r.2.1, data') := by
  unfold execute executeMoving
  simp only
  cases h : (if chunck then parser.init else parser).httpclientParserExecute data length with
  | none => rfl
  | some r =>
    obtain ⟨offset, parser'⟩ := r
    obtain ⟨hlength, ⟨hzero, rfl⟩ | ⟨-, k, rfl, hk⟩⟩ := httpclientParserExecute_cases hdata h
    · have hneg : (-1 : ℤ) < 0 := by norm_num
      rw [Option.map_some, Option.bind_some, apply_failure, Option.map_none]
      exact if_pos hneg
    · have hnot : ¬(k : ℤ) < 0 := by omega
      have hsize : sizeT k = k := sizeT_natCast (hk.trans_lt (hlength.trans (by norm_num)))
      have hmove := apply_moveOf hk hlength hdata
      rw [Option.map_some, Option.bind_some, hsize, hmove, Option.map_some]
      exact if_neg hnot

/-- The request parser keeps the buffer consistent in every call, the response parser in exactly the
calls on a text that is not empty. -/
theorem execute_keeps :
    (∀ (parser parser' : HttpRequestParser T) (data : Bytes) (length k : ℕ) (m : Move),
      length ≤ data.length → parser.executeMoving data length = some (k, parser', m) →
        Keeps data length k m) ∧
    ∀ (parser parser' : HttpResponceParser T') (data : Bytes) (length : ℕ) (chunck : Bool) (k : ℕ)
      (m : Move), length ≤ data.length →
        parser.executeMoving data length chunck = some (k, parser', m) →
          (Keeps data length k m ↔ length ≠ 0) := by
  constructor
  · intro parser parser' data length k m hdata h
    obtain ⟨⟨k', p⟩, hcall, heq⟩ := Option.map_eq_some_iff.mp h
    simp only [Prod.mk.injEq] at heq
    obtain ⟨rfl, -, rfl⟩ := heq
    obtain ⟨hk, hlength⟩ := httpParserExecute_le hcall
    exact keeps_moveOf hk hlength hdata
  · intro parser parser' data length chunck k m hdata h
    obtain ⟨⟨offset, p⟩, hcall, heq⟩ := Option.map_eq_some_iff.mp h
    simp only [Prod.mk.injEq] at heq
    obtain ⟨rfl, -, rfl⟩ := heq
    obtain ⟨hlength, ⟨hzero, rfl⟩ | ⟨hne, k', rfl, hk⟩⟩ := httpclientParserExecute_cases hdata hcall
    · -- the failure code is far beyond the text
      have hnot : ¬Keeps data length (sizeT (-1)) (moveOf (sizeT (-1)) length) := by
        intro hkeeps
        have hle := hkeeps.consumed
        rw [sizeT_neg_one] at hle
        omega
      exact iff_of_false hnot (not_not.mpr hzero)
    · rw [sizeT_natCast (hk.trans_lt (hlength.trans (by norm_num)))]
      exact iff_of_true (keeps_moveOf hk hlength hdata) hne

end Parsers

/-- Two bytes behind the header section are moved to the front, in both parsers. -/
theorem execute_keeps_two :
    Keeps (bytes "GET / HTTP/1.1\r\n\r\nab") 20 18 ⟨18, 2⟩ ∧
      Keeps (bytes "HTTP/1.1 200 OK\r\n\r\nab" ++ [0]) 21 19 ⟨19, 2⟩ := by
  have hkeeps := @execute_keeps requestFragmentTable responceFragmentTable
  have hrequest : ((HttpRequestParser.new requestFragmentTable 0).executeMoving
      (bytes "GET / HTTP/1.1\r\n\r\nab") 20).map (fun r => (r.1, r.2.2)) =
        some (18, ⟨18, 2⟩) := by
    decide +kernel
  have hresponce : ((HttpResponceParser.new responceFragmentTable).executeMoving
      (bytes "HTTP/1.1 200 OK\r\n\r\nab" ++ [0]) 21 false).map (fun r => (r.1, r.2.2)) =
        some (19, ⟨19, 2⟩) := by
    decide +kernel
  obtain ⟨⟨_, parser, _⟩, hcall, heq⟩ := Option.map_eq_some_iff.mp hrequest
  obtain ⟨⟨_, parser', _⟩, hcall', heq'⟩ := Option.map_eq_some_iff.mp hresponce
  obtain ⟨rfl, rfl⟩ := Prod.mk.inj heq
  obtain ⟨rfl, rfl⟩ := Prod.mk.inj heq'
  exact ⟨hkeeps.1 _ parser _ _ _ _ (by decide) hcall,
    (hkeeps.2 _ parser' _ _ _ _ _ (by decide) hcall').mpr (by decide)⟩

/-- On the empty text the response parser returns the largest `size_t` and moves the byte in front
of the buffer. -/
theorem not_keeps_empty :
    ((HttpResponceParser.new responceFragmentTable).executeMoving [0] 0 false).map
        (fun r => (r.1, r.2.2)) = some (2 ^ 64 - 1, ⟨-1, 1⟩) ∧
      ¬Keeps [0] 0 (2 ^ 64 - 1) ⟨-1, 1⟩ := by
  refine ⟨by decide +kernel, fun h => ?_⟩
  exact absurd h.consumed (by norm_num)

end Muhui.Http
