/-
  The header loop of `recvRequest` on reads that split no token.

  `Arrives` is the condition on the reads of one header section; it also says what the last read
  brings beyond the section.
-/
import Muhui.Http.Reads
import Mathlib.Tactic.NormNum

namespace Muhui.Http

open Scanner

variable {T : RequestTable} {buffSize : ℕ}

/-- The header section `need`, or what is left of it, comes in reads of at most `buffSize` bytes
that report all their tokens; the last one also brings `surplus`, and `s'` is left in the socket. -/
inductive Arrives (T : RequestTable) (buffSize : ℕ) :
    T.State → Bytes → Socket → Bytes → Socket → Prop
  | last {q : T.State} {need surplus : Bytes} {s s' : Socket}
      (hread : read buffSize s = (some (need ++ surplus), s')) (hwhole : Whole T q need) :
      Arrives T buffSize q need s surplus s'
  | more {q : T.State} {c need surplus : Bytes} {s s' s'' : Socket}
      (hread : read buffSize s = (some c, s')) (hc : c ≠ []) (hneed : need ≠ [])
      (hwhole : Whole T q c) (harrives : Arrives T buffSize (T.after q c) need s' surplus s'') :
      Arrives T buffSize q (c ++ need) s surplus s''

/-! ### Reading -/

theorem length_le_of_read {n : ℕ} {s s' : Socket} {c : Bytes} (h : read n s = (some c, s')) :
    c.length ≤ n := by
  match s with
  | [] =>
    simp only [read, Prod.mk.injEq, Option.some.injEq] at h
    rw [← h.1]
    exact Nat.zero_le n
  | none :: s => simp [read] at h
  | some d :: s =>
    rw [read] at h
    split_ifs at h with hd
    · simp only [Prod.mk.injEq, Option.some.injEq] at h
      exact h.1 ▸ hd
    · simp only [Prod.mk.injEq, Option.some.injEq] at h
      rw [← h.1]
      exact List.length_take_le n d

/-- The reads that are still useful. -/
def readsLeft (s : Socket) : ℕ := (s.map fun c => (c.getD []).length).sum + s.length

theorem readsLeft_lt_of_read {n : ℕ} {s s' : Socket} {c : Bytes} (h : read n s = (some c, s'))
    (hc : c ≠ []) : readsLeft s' < readsLeft s := by
  match s with
  | [] =>
    simp only [read, Prod.mk.injEq, Option.some.injEq] at h
    exact absurd h.1.symm hc
  | none :: s => simp [read] at h
  | some d :: s =>
    rw [read] at h
    split_ifs at h with hd
    · simp only [Prod.mk.injEq, Option.some.injEq] at h
      obtain ⟨rfl, rfl⟩ := h
      simp only [readsLeft, List.map_cons, List.sum_cons, List.length_cons, Option.getD_some]
      omega
    · simp only [Prod.mk.injEq, Option.some.injEq] at h
      obtain ⟨rfl, rfl⟩ := h
      -- a read of no bytes would not have been a byte
      have hn : 0 < n := by
        rw [Nat.pos_iff_ne_zero]
        rintro rfl
        exact hc List.take_zero
      simp only [readsLeft, List.map_cons, List.sum_cons, List.length_cons, Option.getD_some,
        List.length_drop]
      omega

/-- Behind its header loop `recvRequest` is `recvBody`. -/
theorem recvRequest_eq_body {mem : Uninit} {parser : HttpRequestParser T} {data : Bytes}
    {offset : ℕ} {socket s : Socket}
    (h : recvHeader T buffSize (readsLeft socket + 1) (.new T mem.queryStart) mem.heap 0 socket =
      (.ok (parser, data, offset), s)) :
    recvRequest T buffSize mem socket = recvBody T parser data offset s := by
  unfold recvRequest
  simp only
  rw [show (socket.map fun c => (c.getD []).length).sum + socket.length + 1 =
    readsLeft socket + 1 from rfl, h]

/-- What the header loop fails with, `recvRequest` fails with. -/
theorem recvRequest_error {mem : Uninit} {o : Outcome} {socket s : Socket}
    (h : recvHeader T buffSize (readsLeft socket + 1) (.new T mem.queryStart) mem.heap 0 socket =
      (.error o, s)) :
    (recvRequest T buffSize mem socket).1 = o := by
  unfold recvRequest
  simp only
  rw [show (socket.map fun c => (c.getD []).length).sum + socket.length + 1 =
    readsLeft socket + 1 from rfl, h]

/-! ### One call of `execute` -/

theorem Same.reset {base : ℕ} {s₁ s₂ : RequestData} (hrequest : s₁.message = s₂.message)
    (herror : s₁.error = s₂.error) : Same base 0 [] (HttpRequestParser.reset s₁) s₂ where
  message := hrequest
  error := herror
  mark := nofun
  fieldStart := nofun
  fieldLen := nofun
  queryStart := nofun

theorem execute_eq {parser : HttpRequestParser T} {c rest : Bytes} {n : ℕ} {q₀ q : T.State}
    {s : RequestData} (hc : c ≠ []) (hlt : c.length < 2 ^ 31) (hcs : parser.cs = q₀)
    (hscan : scan T (RequestAction.act (c ++ rest)) RequestAction.stops c 0 q₀
      (HttpRequestParser.reset parser.data) = some (n, q, s)) :
    parser.execute (c ++ rest) c.length =
      some (n, ⟨q, s⟩, c.drop n ++ (c ++ rest).drop (c.drop n).length) := by
  have hlen : c.length ≠ 0 := fun h0 => hc (List.length_eq_zero_iff.mp h0)
  have hint : ¬toInt c.length ≠ c.length := not_not_intro (toInt_of_lt hlt)
  rw [HttpRequestParser.execute, HttpRequestParser.httpParserExecute, if_neg hlen, if_neg hint,
    List.take_left, hcs, hscan]
  rfl

/-- A read that leaves the parser without error, short of a full buffer. -/
theorem recvHeader_read {parser parser' : HttpRequestParser T} {data data' c : Bytes}
    (reads : ℕ) {n : ℕ} {s s' : Socket} (hsize : buffSize < 2 ^ 31)
    (hread : read buffSize s = (some c, s')) (hn : 0 < n) (hnc : n ≤ c.length)
    (hexec : parser.execute (c ++ data.drop c.length) c.length = some (n, parser', data'))
    (herror : parser'.hasError = false) :
    recvHeader T buffSize (reads + 1) parser data 0 s =
      if parser'.isFinished ≠ 0 then (.ok (parser', data', c.length - n), s')
      else recvHeader T buffSize reads parser' data' (c.length - n) s' := by
  have hle := length_le_of_read hread
  have hfull : ((c.length - n : ℕ) : ℤ) ≠ toInt buffSize := by
    rw [toInt_of_lt hsize]
    omega
  rw [recvHeader_zero hread, hexec]
  simp only [herror, Bool.false_eq_true, if_false, hfull]

/-- For reads that split no token, the header loop ends with the request that the header section
parses to in one piece and with the surplus at the front of the buffer. -/
theorem recvHeader_of_arrives (hT : Generated T) (hsize : buffSize < 2 ^ 31) {header : Bytes}
    {q'' : T.State} {s₂'' : RequestData} (hq'' : q'' ≠ T.error) (hfinal : T.isFinal q'' = true)
    (hgood : s₂''.error = 0) (hafter : T.after T.start header ≠ T.error)
    {q : T.State} {need surplus : Bytes} {s s' : Socket}
    (h : Arrives T buffSize q need s surplus s') (base reads : ℕ) (s₂ : RequestData)
    (parser : HttpRequestParser T) (data : Bytes) (hneed : need ≠ [])
    (hq : q = T.after T.start (header.take base)) (hdrop : header.drop base = need)
    (hcs : parser.cs = q) (hnot : T.isFinal q = false)
    (hscan : scan T (RequestAction.act header) RequestAction.stops need base q s₂ =
      some (header.length, q'', s₂''))
    (hrequest : parser.data.message = s₂.message) (herror : parser.data.error = s₂.error)
    (hreads : readsLeft s < reads) :
    ∃ parser' data', recvHeader T buffSize reads parser data 0 s =
        (.ok (parser', data', surplus.length), s') ∧
      parser'.data.message = s₂''.message ∧ data'.take surplus.length = surplus := by
  induction h generalizing base reads s₂ parser data with
  | @last q need surplus s s' hread hwhole =>
    have hrule := readRule hT hafter
      (Piece.of_append (by rw [hdrop, List.append_nil])
        (show need ++ surplus ++ data.drop (need ++ surplus).length = need ++ _ from
          List.append_assoc ..))
    obtain ⟨t, p', live', ht, hR⟩ := hrule.scan_last hneed (Nat.zero_add _).le hq hdrop hwhole
      (.reset hrequest herror)
      hscan hfinal hgood surplus
    rw [Nat.zero_add] at ht
    have hpos : 0 < need.length := List.length_pos_iff.mpr hneed
    have hexec := execute_eq (by simp [hneed]) ((length_le_of_read hread).trans_lt hsize) hcs ht
    rw [List.drop_left] at hexec
    obtain ⟨reads, rfl⟩ : ∃ k, reads = k + 1 := ⟨reads - 1, by omega⟩
    have hfin : (HttpRequestParser.mk q'' t : HttpRequestParser T).isFinished = 1 :=
      isFinished_eq_one_iff.mpr ⟨hq'', hfinal⟩
    have hread' := recvHeader_read reads hsize hread hpos (by simp) hexec
      (hasError_eq_false_iff.mpr ⟨hR.error.trans hgood, hq''⟩)
    rw [hfin, if_pos one_ne_zero, List.length_append, Nat.add_sub_cancel_left] at hread'
    exact ⟨⟨q'', t⟩, _, hread', hR.message, List.take_left⟩
  | @more q c need surplus s s' s'' hread hc hneed' hwhole harrives ih =>
    have hrule := readRule hT hafter
      (Piece.of_append hdrop (show c ++ data.drop c.length = c ++ _ from rfl))
    obtain ⟨t, s₂', live', ht, hR, hscan', hnot'⟩ := hrule.scan_inside hneed' (Nat.zero_add _).le hq
      hdrop hwhole (.reset hrequest herror) hscan hgood
    rw [Nat.zero_add] at ht
    have hpos : 0 < c.length := List.length_pos_iff.mpr hc
    have hexec := execute_eq hc ((length_le_of_read hread).trans_lt hsize) hcs ht
    obtain ⟨reads, rfl⟩ : ∃ k, reads = k + 1 := ⟨reads - 1, by omega⟩
    have hq' : T.after q c = T.after T.start (header.take (base + c.length)) := by
      rw [List.take_add, T.after_append, ← hq, hdrop, List.take_left]
    have hdrop' : header.drop (base + c.length) = need := by
      rw [← List.drop_drop, hdrop, List.drop_left]
    have halive : T.after q c ≠ T.error := by
      rw [hq']
      exact hT.after_ne_error_of_prefix hafter (List.take_prefix _ _)
    have hgood' : s₂'.error = 0 := scan_induction_back hrule.back hscan' hgood
    have hfin : (HttpRequestParser.mk (T.after q c) t : HttpRequestParser T).isFinished = 0 := by
      unfold HttpRequestParser.isFinished
      rw [if_neg halive, hnot' hnot]
      rfl
    have hread' := recvHeader_read reads hsize hread hpos le_rfl hexec
      (hasError_eq_false_iff.mpr ⟨hR.error.trans hgood', halive⟩)
    rw [hfin, if_neg (by simp), Nat.sub_self] at hread'
    rw [Nat.zero_add] at hscan'
    obtain ⟨parser', data', hrecv, hrest⟩ := ih _ reads _ ⟨T.after q c, t⟩
      (c.drop c.length ++ _) hneed' hq'
      hdrop' rfl (hnot' hnot) hscan' hR.message hR.error
      (by have := readsLeft_lt_of_read hread hc; omega)
    exact ⟨parser', data', hread'.trans hrecv, hrest⟩

end Muhui.Http
