/-
  The length of the body.

  `recvRequest` takes the content length as an `int`, never asks for the maximal size of a body, and
  fills the body string through pointers: `memcpy` puts what the header loop left over at its front
  and `readFixSize` reads the rest in place behind it.  `recvBody` says what the string then holds;
  `recvBodyInto` does the writes one by one and fails on one outside of the string.
-/
import Muhui.Http.Stream
import Muhui.Container.Blocks

namespace Muhui.Http

open Scanner

variable {T : RequestTable} {buffSize : ℕ}

/-! ### What arrives -/

/-- The bytes that reads bring in front of the first one that fails or brings nothing. -/
def arriving : Socket → Bytes
  | some c :: s => if c = [] then [] else c ++ arriving s
  | _ => []

theorem arriving_cons {c : Bytes} (hc : c ≠ []) (s : Socket) :
    arriving (some c :: s) = c ++ arriving s :=
  if_neg hc

/-- One read of `readFixSize`: it ends the loop, or brings the next of the arriving bytes. -/
theorem arriving_of_read {n : ℕ} {s : Socket} (hn : 0 < n) :
    (read n s).1 = none ∧ arriving s = [] ∨ (read n s).1 = some [] ∧ arriving s = [] ∨
      ∃ c s', read n s = (some c, s') ∧ c ≠ [] ∧ arriving s = c ++ arriving s' := by
  match s with
  | [] => exact .inr (.inl ⟨rfl, rfl⟩)
  | none :: s => exact .inl ⟨rfl, rfl⟩
  | some c :: s =>
    by_cases hc : c = []
    · rw [hc]
      exact .inr (.inl ⟨rfl, rfl⟩)
    · refine .inr (.inr ?_)
      rw [read, arriving_cons hc]
      split_ifs with hle
      · exact ⟨c, s, rfl, hc, rfl⟩
      · have htake : c.take n ≠ [] := by
          intro h0
          rcases List.take_eq_nil_iff.mp h0 with h0 | h0
          · omega
          · exact hc h0
        refine ⟨c.take n, some (c.drop n) :: s, rfl, htake, ?_⟩
        rw [arriving_cons (drop_ne_nil hle), ← List.append_assoc, List.take_append_drop]

/-- `readFixSize` returns the bytes it was asked for when they arrive, and fails otherwise. -/
theorem readFixSize_arriving {reads n : ℕ} {s : Socket} (hreads : n ≤ reads) :
    (readFixSize reads n s).1 =
      if n ≤ (arriving s).length then some ((arriving s).take n) else none := by
  induction reads generalizing n s with
  | zero =>
    obtain rfl : n = 0 := by omega
    rw [readFixSize_zero, if_pos (Nat.zero_le _), List.take_zero]
  | succ reads ih =>
    cases n with
    | zero => rw [readFixSize_zero, if_pos (Nat.zero_le _), List.take_zero]
    | succ n =>
      rw [readFixSize]
      rcases arriving_of_read (s := s) (Nat.succ_pos n) with
        ⟨hread, hnil⟩ | ⟨hread, hnil⟩ | ⟨c, s', hread, hc, happend⟩
      · rw [hnil, if_neg (by simp)]
        rw [← Prod.eta (read (n + 1) s), hread]
      · rw [hnil, if_neg (by simp)]
        rw [← Prod.eta (read (n + 1) s), hread]
        rfl
      · have hpos : 0 < c.length := List.length_pos_iff.mpr hc
        have hle := length_le_of_read hread
        rw [hread]
        simp only [if_neg hc]
        rw [ih (by omega), happend, List.length_append]
        by_cases hn : n + 1 - c.length ≤ (arriving s').length
        · rw [if_pos hn, if_pos (by omega), List.take_append, List.take_of_length_le hle]
          rfl
        · rw [if_neg hn, if_neg (by omega)]
          rfl

/-! ### The body string -/

/-- A write into the string; `none` when it goes outside of it. -/
def writeAt (body : Bytes) (at_ : ℕ) (c : Bytes) : Option Bytes :=
  if at_ + c.length ≤ body.length then some (overwrite body at_ c) else none

/-- `readFixSize(&body[at], left)`: every read writes in place.  The outer `none` is a write outside
of the string, the inner one a failure. -/
def readInto : ℕ → ℕ → ℕ → Bytes → Socket → Option (Option Bytes × Socket)
  | _, _, 0, body, s => some (some body, s)
  | 0, _, _ + 1, _, s => some (none, s)
  | reads + 1, at_, left + 1, body, s =>
    match read (left + 1) s with
    | (none, s) => some (none, s)
    | (some c, s) =>
      if c = [] then some (none, s)
      else
        (writeAt body at_ c).bind fun body =>
          readInto reads (at_ + c.length) (left + 1 - c.length) body s

/-- `recvBody` with the body string that is written to; `none` is a write outside of it. -/
def recvBodyInto (parser : HttpRequestParser T) (data : Bytes) (offset : ℕ) (socket : Socket) :
    Option (Outcome × Socket) :=
  let length := toInt parser.getcontentLength
  if 0 < length then
    let head := if (offset : ℤ) ≤ length then data.take offset else data.take length.toNat
    let len := if (offset : ℤ) ≤ length then offset else 0
    (writeAt (List.replicate length.toNat 0) 0 head).bind fun body =>
      if 0 < length - offset then
        (readInto (length - offset).toNat len (length - offset).toNat body socket).map fun
          | (none, socket) => (.closed, socket)
          | (some body, socket) => (.request (parser.data.message.setBody body), socket)
      else some (.request (parser.data.message.setBody body), socket)
  else some (.request parser.data.message, socket)

/-- A write behind the part of the string that is filled already. -/
theorem writeAt_append {front hole c : Bytes} (h : c.length ≤ hole.length) :
    writeAt (front ++ hole) front.length c = some (front ++ c ++ hole.drop c.length) := by
  have hfits : front.length + c.length ≤ (front ++ hole).length := by
    rw [List.length_append]
    omega
  rw [writeAt, if_pos hfits, overwrite_append_right le_rfl, Nat.sub_self, overwrite, List.take_zero,
    List.nil_append, Nat.zero_add, List.append_assoc]

theorem writeAt_zero {hole c : Bytes} (h : c.length ≤ hole.length) :
    writeAt hole 0 c = some (c ++ hole.drop c.length) :=
  @writeAt_append [] hole c h

/-- Reading in place fills the rest of the string with what `readFixSize` returns. -/
theorem readInto_eq {reads left : ℕ} {front hole : Bytes} {s : Socket}
    (hleft : hole.length = left) :
    readInto reads front.length left (front ++ hole) s =
      some ((readFixSize reads left s).1.map (front ++ ·), (readFixSize reads left s).2) := by
  induction reads generalizing left front hole s with
  | zero =>
    cases left with
    | zero =>
      rw [List.length_eq_zero_iff.mp hleft]
      rfl
    | succ left => rfl
  | succ reads ih =>
    cases left with
    | zero =>
      rw [List.length_eq_zero_iff.mp hleft, readFixSize_zero]
      rfl
    | succ left =>
      rw [readInto, readFixSize]
      cases hread : read (left + 1) s with
      | mk o s' =>
        cases o with
        | none => rfl
        | some c =>
          have hle := length_le_of_read hread
          simp only
          split_ifs with hc
          · rfl
          · rw [writeAt_append (hleft ▸ hle), Option.bind_some, ← List.length_append,
              ih (by rw [List.length_drop, hleft]), Option.map_map]
            congr 3
            funext tail
            exact List.append_assoc ..

/-- No write leaves the body string, and it ends up as `recvBody` says. -/
theorem recvBodyInto_eq {parser : HttpRequestParser T} {data : Bytes} {offset : ℕ} {s : Socket}
    (hoffset : offset ≤ data.length) :
    recvBodyInto parser data offset s = some (recvBody T parser data offset s) := by
  unfold recvBodyInto recvBody
  simp only
  generalize toInt parser.getcontentLength = length
  by_cases hpos : 0 < length
  · have hhole : (List.replicate length.toNat (0 : UInt8)).length = length.toNat :=
      List.length_replicate
    simp only [if_pos hpos]
    by_cases hle : (offset : ℤ) ≤ length
    · have hhead : (data.take offset).length = offset := List.length_take_of_le hoffset
      simp only [if_pos hle]
      rw [writeAt_zero (by omega), Option.bind_some, hhead]
      by_cases hmore : 0 < length - offset
      · rw [if_pos hmore, if_pos hmore]
        have hrest : ((List.replicate length.toNat (0 : UInt8)).drop offset).length =
            (length - offset).toNat := by
          rw [List.length_drop, hhole]
          omega
        have hread := @readInto_eq (length - offset).toNat _ (data.take offset) _ s hrest
        rw [hhead] at hread
        rw [hread, Option.map_some]
        cases readFixSize (length - offset).toNat (length - offset).toNat s with
        | mk o s' =>
          cases o with
          | none => rfl
          | some tail => rfl
      · rw [if_neg hmore, if_neg hmore, List.drop_eq_nil_of_le (by omega), List.append_nil]
    · -- more is buffered than the body is long
      have hhead : (data.take length.toNat).length = length.toNat :=
        List.length_take_of_le (by omega)
      simp only [if_neg hle]
      rw [writeAt_zero (by omega), Option.bind_some, hhead, List.drop_eq_nil_of_le (by omega),
        List.append_nil, if_neg (by omega), if_neg (by omega)]
  · rw [if_neg hpos, if_neg hpos]

/-! ### How the body ends -/

section Body

variable {parser : HttpRequestParser T} {data : Bytes} {offset : ℕ} {s : Socket}

theorem body_setBody (r : HttpRequest) (v : Bytes) : (r.setBody v).body = v := rfl

/-- What is not positive as an `int` is no body. -/
theorem recvBody_none (h : toInt parser.getcontentLength ≤ 0) :
    recvBody T parser data offset s = (.request parser.data.message, s) := by
  unfold recvBody
  exact if_neg (not_lt.mpr h)

/-- The body ends too early. -/
theorem recvBody_short
    (h : ((offset + (arriving s).length : ℕ) : ℤ) < toInt parser.getcontentLength) :
    (recvBody T parser data offset s).1 = .closed := by
  have hread : (readFixSize (toInt parser.getcontentLength - offset).toNat
      (toInt parser.getcontentLength - offset).toNat s).1 = none := by
    rw [readFixSize_arriving le_rfl]
    exact if_neg (by omega)
  unfold recvBody
  simp only
  rw [if_pos (by omega), if_pos (by omega : 0 < toInt parser.getcontentLength - offset)]
  rw [← Prod.eta (readFixSize _ _ s), hread]

/-- The body is filled with as many bytes as the `int` says. -/
theorem recvBody_long (hoffset : offset ≤ data.length) (hpos : 0 < toInt parser.getcontentLength)
    (h : toInt parser.getcontentLength ≤ (offset + (arriving s).length : ℕ)) :
    (recvBody T parser data offset s).1 =
      .request (parser.data.message.setBody
        ((data.take offset ++ arriving s).take (toInt parser.getcontentLength).toNat)) := by
  have hhead : (data.take offset).length = offset := List.length_take_of_le hoffset
  unfold recvBody
  simp only
  generalize toInt parser.getcontentLength = length at hpos h ⊢
  rw [if_pos hpos]
  by_cases hmore : 0 < length - offset
  · have hread : (readFixSize (length - offset).toNat (length - offset).toNat s).1 =
        some ((arriving s).take (length - offset).toNat) := by
      rw [readFixSize_arriving le_rfl]
      exact if_pos (by omega)
    rw [if_pos hmore, if_pos (by omega), ← Prod.eta (readFixSize _ _ s), hread]
    simp only
    have hall : (data.take offset).take length.toNat = data.take offset :=
      List.take_of_length_le (by omega)
    have hrest : (length - offset).toNat = length.toNat - offset := by omega
    rw [List.take_append, hall, hhead, hrest]
  · rw [if_neg hmore]
    simp only
    split_ifs with hle
    · have hall : (data.take offset).take length.toNat = data.take offset :=
        List.take_of_length_le (by omega)
      rw [List.take_append_of_le_length (by omega), hall]
    · rw [List.take_append_of_le_length (by omega), List.take_take, min_eq_left (by omega)]

/-- When enough bytes follow, a request is returned, with as much of them as the `int` says. -/
theorem recvBody_request (hoffset : offset ≤ data.length) (hbody : parser.data.message.body = [])
    (h : toInt parser.getcontentLength ≤ (offset + (arriving s).length : ℕ)) :
    ∃ r, (recvBody T parser data offset s).1 = .request r ∧
      r.body = (data.take offset ++ arriving s).take (toInt parser.getcontentLength).toNat := by
  by_cases hpos : 0 < toInt parser.getcontentLength
  · exact ⟨_, recvBody_long hoffset hpos h, body_setBody _ _⟩
  · have hzero : (toInt parser.getcontentLength).toNat = 0 := by omega
    rw [recvBody_none (not_lt.mp hpos), hzero, List.take_zero]
    exact ⟨_, rfl, hbody⟩

end Body

/-! ### The state behind the header section -/

/-- What a call of `execute` leaves in the buffer and in the body. -/
theorem execute_left {parser parser' : HttpRequestParser T} {data data' : Bytes} {length k : ℕ}
    (h : parser.execute data length = some (k, parser', data')) (hdata : length ≤ data.length) :
    length - k ≤ data'.length ∧
      (parser.data.message.body = [] → parser'.data.message.body = []) := by
  obtain ⟨hcall, rfl⟩ := HttpRequestParser.of_execute h
  refine ⟨?_, fun hbody => ?_⟩
  · rw [List.length_append, List.length_drop, List.length_take_of_le hdata]
    exact Nat.le_add_right _ _
  · rcases HttpRequestParser.httpParserExecute_cases hcall with ⟨-, -, rfl⟩ | ⟨-, -, hscan⟩
    · exact hbody
    · exact scan_induction (P := fun s => s.message.body = [])
        (fun _ _ _ _ h hs => (RequestAction.step h).key_eq.trans hs) hscan hbody

/-- Behind the header section the buffer holds the bytes that are left over, and the request has no
body yet. -/
theorem recvHeader_left {reads : ℕ} {parser parser' : HttpRequestParser T} {data data' : Bytes}
    {offset offset' : ℕ} {s s' : Socket}
    (h : recvHeader T buffSize reads parser data offset s = (.ok (parser', data', offset'), s'))
    (hoffset : offset ≤ data.length) (hbody : parser.data.message.body = []) :
    offset' ≤ data'.length ∧ parser'.data.message.body = [] := by
  refine recvHeader_rule
    (P := fun parser data offset => offset ≤ data.length ∧ parser.data.message.body = [])
    ?_ h ⟨hoffset, hbody⟩
  rintro parser data offset c n parser' data' ⟨hoffset, hbody⟩ hexec
  have hlength : offset + c.length ≤
      (data.take offset ++ c ++ data.drop (offset + c.length)).length := by
    rw [List.length_append, List.length_append, List.length_take_of_le hoffset]
    exact Nat.le_add_right _ _
  obtain ⟨hleft, hkeep⟩ := execute_left hexec hlength
  exact ⟨hleft, hkeep hbody⟩

/-! ### The announced length -/

/-- What is asked of a call that ends as `o` when its header section announced `n` bytes: nothing
longer than allowed is accepted, and an accepted body is exactly the `n` bytes that follow. -/
structure Honours (maxBodySize n : ℕ) (following : Bytes) (o : Outcome) : Prop where
  capped : maxBodySize < n → o = .closed
  honoured : n ≤ maxBodySize →
    o = .closed ∨ ∃ r, o = .request r ∧ r.body.length = n ∧ r.body <+: following

section Honours

variable {parser : HttpRequestParser T} {data : Bytes} {offset : ℕ} {s : Socket}

/-- A body that is accepted with its announced length has a length that survives as an `int`. -/
theorem lt_of_honours {maxBodySize : ℕ} (hoffset : offset ≤ data.length)
    (hbody : parser.data.message.body = [])
    (hlong : toInt parser.getcontentLength ≤ (offset + (arriving s).length : ℕ))
    (h : Honours maxBodySize parser.getcontentLength (data.take offset ++ arriving s)
      (recvBody T parser data offset s).1) :
    parser.getcontentLength ≤ maxBodySize ∧ parser.getcontentLength < 2 ^ 31 := by
  obtain ⟨r, hr, hrbody⟩ := recvBody_request hoffset hbody hlong
  have hopen : (recvBody T parser data offset s).1 ≠ .closed := by
    rw [hr]
    exact Outcome.noConfusion
  have hmax : parser.getcontentLength ≤ maxBodySize := by
    by_contra hmax
    exact hopen (h.capped (not_le.mp hmax))
  rcases h.honoured hmax with hclosed | ⟨r', hr', hn, -⟩
  · exact absurd hclosed hopen
  · obtain rfl : r = r' := Outcome.request.inj (hr.symm.trans hr')
    have hcut : (toInt parser.getcontentLength).toNat = parser.getcontentLength := by
      rw [hrbody, List.length_take, List.length_append, List.length_take_of_le hoffset] at hn
      omega
    have hfits : toInt parser.getcontentLength = parser.getcontentLength := by
      by_cases hzero : parser.getcontentLength = 0
      · rw [hzero]
        rfl
      · omega
    exact ⟨hmax, toInt_eq_iff.mp hfits⟩

/-- A length that is allowed and fits an `int` is honoured. -/
theorem honours_of_lt {maxBodySize : ℕ} (hoffset : offset ≤ data.length)
    (hbody : parser.data.message.body = []) (hmax : parser.getcontentLength ≤ maxBodySize)
    (hsmall : parser.getcontentLength < 2 ^ 31) :
    Honours maxBodySize parser.getcontentLength (data.take offset ++ arriving s)
      (recvBody T parser data offset s).1 := by
  refine ⟨fun hover => absurd hmax (not_le.mpr hover), fun _ => ?_⟩
  have hfits := toInt_of_lt hsmall
  by_cases hlong : toInt parser.getcontentLength ≤ (offset + (arriving s).length : ℕ)
  · obtain ⟨r, hr, hrbody⟩ := recvBody_request hoffset hbody hlong
    refine .inr ⟨r, hr, ?_, ?_⟩
    · rw [hrbody, List.length_take, List.length_append, List.length_take_of_le hoffset]
      omega
    · rw [hrbody]
      exact List.take_prefix _ _
  · exact .inl (recvBody_short (not_le.mp hlong))

end Honours

/-- In every call whose header section is complete no write leaves the body string, and the length
is honoured exactly when it is allowed and fits an `int`, or when fewer bytes follow than its value
as an `int`. -/
theorem honours_iff {mem : Uninit} {parser : HttpRequestParser T} {data : Bytes} {offset : ℕ}
    {socket s : Socket} (maxBodySize : ℕ)
    (h : recvHeader T buffSize (readsLeft socket + 1) (.new T mem.queryStart) mem.heap 0 socket =
      (.ok (parser, data, offset), s)) :
    (Honours maxBodySize parser.getcontentLength (data.take offset ++ arriving s)
        (recvRequest T buffSize mem socket).1 ∧
      recvBodyInto parser data offset s ≠ none) ↔
    (parser.getcontentLength ≤ maxBodySize ∧ parser.getcontentLength < 2 ^ 31) ∨
      ((offset + (arriving s).length : ℕ) : ℤ) < toInt parser.getcontentLength := by
  obtain ⟨hoffset, hbody⟩ := recvHeader_left h (Nat.zero_le _) rfl
  have hinside : recvBodyInto parser data offset s ≠ none := by
    rw [recvBodyInto_eq hoffset]
    exact Option.some_ne_none _
  rw [recvRequest_eq_body h, and_iff_left hinside]
  constructor
  · intro hhonours
    by_cases hlong : toInt parser.getcontentLength ≤ (offset + (arriving s).length : ℕ)
    · exact .inl (lt_of_honours hoffset hbody hlong hhonours)
    · exact .inr (not_le.mp hlong)
  · rintro (⟨hmax, hsmall⟩ | hshort)
    · exact honours_of_lt hoffset hbody hmax hsmall
    · -- the body ends too early, and the session is closed
      have hclosed : (recvBody T parser data offset s).1 = .closed := recvBody_short hshort
      exact ⟨fun _ => hclosed, fun _ => .inl hclosed⟩

theorem exists_of_header {n : ℕ}
    {x : Except Outcome (HttpRequestParser T × Bytes × ℕ) × Socket}
    (h : x.1.toOption.map (fun r => r.1.getcontentLength) = some n) :
    ∃ parser data offset s, x = (.ok (parser, data, offset), s) ∧ parser.getcontentLength = n := by
  obtain ⟨x, s⟩ := x
  obtain ⟨r, hr, hn⟩ := Option.map_eq_some_iff.mp h
  cases x with
  | error o => cases hr
  | ok r' =>
    obtain rfl := Option.some.inj hr
    exact ⟨r'.1, r'.2.1, r'.2.2, s, rfl, hn⟩

/-- Two bytes are announced, and two arrive with the header section. -/
theorem honours_post : ∃ parser data offset s,
    recvHeader requestFragmentTable 4096 (readsLeft [some postMessage.wire] + 1) (.new _ 0)
        (List.replicate 4096 0) 0 [some postMessage.wire] = (.ok (parser, data, offset), s) ∧
      Honours 67108864 2 (data.take offset ++ arriving s)
        (recvRequest requestFragmentTable 4096 ⟨List.replicate 4096 0, 0⟩
          [some postMessage.wire]).1 := by
  have hlength : (recvHeader requestFragmentTable 4096 (readsLeft [some postMessage.wire] + 1)
      (.new _ 0) (List.replicate 4096 0) 0 [some postMessage.wire]).1.toOption.map
        (fun r => r.1.getcontentLength) = some 2 := by
    decide +kernel
  obtain ⟨parser, data, offset, s, h, hn⟩ := exists_of_header hlength
  refine ⟨parser, data, offset, s, h, ?_⟩
  have hiff := @honours_iff requestFragmentTable 4096 ⟨List.replicate 4096 0, 0⟩ parser data offset
    _ s 67108864 h
  rw [hn] at hiff
  exact (hiff.mpr (.inl ⟨by norm_num, by norm_num⟩)).1

/-- A header section that announces `2 ^ 32 + 2` bytes, and two more bytes. -/
def wrappingWire : Bytes :=
  bytes "POST /p HTTP/1.1\r\ncontent-length: 4294967298\r\n\r\nab"

/-- It is accepted, although more is announced than is allowed and arrives, with a body of two
bytes. -/
theorem not_honours_wrapping : ∃ parser data offset s,
    recvHeader requestFragmentTable 4096 (readsLeft [some wrappingWire] + 1) (.new _ 0)
        (List.replicate 4096 0) 0 [some wrappingWire] = (.ok (parser, data, offset), s) ∧
      parser.getcontentLength = 4294967298 ∧
      ¬Honours 67108864 parser.getcontentLength (data.take offset ++ arriving s)
        (recvRequest requestFragmentTable 4096 ⟨List.replicate 4096 0, 0⟩
          [some wrappingWire]).1 := by
  have hlength : (recvHeader requestFragmentTable 4096 (readsLeft [some wrappingWire] + 1)
      (.new _ 0) (List.replicate 4096 0) 0 [some wrappingWire]).1.toOption.map
        (fun r => r.1.getcontentLength) = some 4294967298 := by
    decide +kernel
  obtain ⟨parser, data, offset, s, h, hn⟩ := exists_of_header hlength
  refine ⟨parser, data, offset, s, h, hn, fun hhonours => ?_⟩
  have hopen : (recvRequest requestFragmentTable 4096 ⟨List.replicate 4096 0, 0⟩
      [some wrappingWire]).1 ≠ .closed := by
    decide +kernel
  exact hopen (hhonours.capped (by rw [hn]; norm_num))

end Muhui.Http
