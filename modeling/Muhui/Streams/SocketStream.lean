/-
  `SocketStream` with a `ByteArray` (`socket_stream.cc`, `stream.cc`).

  `writeFixSize` offers the kernel one part of a block at a time, and whatever the kernel takes of
  it, the next call begins behind it: the bytes go out once each, in order
  (`writeFixSize_sends`).  `readFixSize` asks for as many bytes as the empty vector of buffers has
  elements, so it never receives any (`receives_iff_zero`).
-/
import Muhui.ByteArray.File
import Muhui.ByteArray.Reading
import Muhui.Http.Stream

namespace Muhui.SocketStream

open Muhui.ByteArray
open Http (Socket)

/-! ### Calls -/

/-- The loop of `readFixSize` and `writeFixSize`, of which `call` is one pass. It ends with the
result that is not positive, if there is one. -/
def fixSizeLoop {σ : Type} (call : ByteArray → ℕ → σ → Outcome (ℤ × σ)) (s : ByteArray) (left : ℤ)
    (x : σ) : Outcome (Option ℤ × σ) :=
  if 0 < left then
    (call s left.toNat x).bind fun s r =>
      if r.1 ≤ 0 then .returns s (some r.1, r.2) else fixSizeLoop call s (left - r.1) r.2
  else .returns s (none, x)
termination_by left.toNat

/-- `Stream::readFixSize` and `Stream::writeFixSize`; lengths are below `2 ^ 63` and fit an
`int64_t`. -/
def fixSize {σ : Type} (call : ByteArray → ℕ → σ → Outcome (ℤ × σ)) (s : ByteArray) (length : ℕ)
    (x : σ) : Outcome (ℤ × σ) :=
  (fixSizeLoop call s length x).map fun r => (toInt (r.1.getD length), r.2)

/-- `SocketStream::read(ba, length)`. The kernel fills the buffers in order, with what has arrived
and is not more than they have room for. -/
def read (fill : ℕ → ℕ → UInt8) (connected : Bool) (s : ByteArray) (_length : ℕ)
    (socket : Socket) : Outcome (ℤ × Socket) :=
  if connected then
    let iovs : List Iovec := []
    (s.getWriteBuffers fill iovs.length).bind fun s r =>
      let iovs := iovs ++ r.2
      match Http.read (iovs.map Iovec.len).sum socket with
      | (none, socket) => .returns s (-1, socket)
      | (some buf, socket) =>
        let s := s.scatter iovs buf
        let rt := toInt buf.length
        if 0 < rt then (s.setPosition (s.position + rt.toNat)).map fun _ => (rt, socket)
        else .returns s (rt, socket)
  else .returns s (-1, socket)

/-- What has been put on the wire, and the number of calls of the kernel. -/
structure Wire where
  sent : List UInt8
  calls : ℕ

/-- `SocketStream::write(ba, length)`; `send i bs` is what the kernel returns when `bs` is offered
in call `i`, the number of bytes that it takes or a number that is not positive. -/
def write (send : ℕ → List UInt8 → ℤ) (connected : Bool) (s : ByteArray) (length : ℕ) (w : Wire) :
    Outcome (ℤ × Wire) :=
  if connected then
    (s.getReadBuffers length).bind fun s r =>
      let offered := (r.2.map s.fetch).flatten
      let rt := toInt (send w.calls offered)
      let w := { sent := w.sent ++ offered.take (send w.calls offered).toNat, calls := w.calls + 1 }
      if 0 < rt then (s.setPosition (s.position + rt.toNat)).map fun _ => (rt, w)
      else .returns s (rt, w)
  else .returns s (-1, w)

def readFixSize (fill : ℕ → ℕ → UInt8) (connected : Bool) :
    ByteArray → ℕ → Socket → Outcome (ℤ × Socket) :=
  fixSize (read fill connected)

def writeFixSize (send : ℕ → List UInt8 → ℤ) (connected : Bool) :
    ByteArray → ℕ → Wire → Outcome (ℤ × Wire) :=
  fixSize (write send connected)

section Loop

variable {σ : Type} {call : ByteArray → ℕ → σ → Outcome (ℤ × σ)} {s t : ByteArray} {x y : σ}

theorem fixSizeLoop_zero : fixSizeLoop call s 0 x = .returns s (none, x) := by
  rw [fixSizeLoop, if_neg (lt_irrefl 0)]

/-- A pass that ends the loop. -/
theorem fixSizeLoop_stop {left : ℕ} {r : ℤ} (hleft : 0 < left)
    (hcall : call s left x = .returns t (r, y)) (hr : r ≤ 0) :
    fixSizeLoop call s left x = .returns t (some r, y) := by
  rw [fixSizeLoop, if_pos (by omega), Int.toNat_natCast, hcall]
  exact if_pos hr

/-- A pass that is not the last one, or ends the loop because nothing is left. -/
theorem fixSizeLoop_next {left k : ℕ} (hk : 0 < k) (hle : k ≤ left)
    (hcall : call s left x = .returns t ((k : ℤ), y)) :
    fixSizeLoop call s left x = fixSizeLoop call t (left - k : ℕ) y := by
  have hcast : (left : ℤ) - (k : ℤ) = ((left - k : ℕ) : ℤ) := by omega
  rw [fixSizeLoop, if_pos (by omega), Int.toNat_natCast, hcall, ← hcast]
  exact if_neg (by omega)

end Loop

/-! ### Input -/

variable {s t : ByteArray} {n : ℕ}

/-- The next `n` bytes of the stream are stored at the cursor, which is moved over them. -/
def Receives (fill : ℕ → ℕ → UInt8) (s : ByteArray) (n : ℕ) (socket : Socket) : Prop :=
  ∃ t socket', readFixSize fill true s n socket = .returns t ((n : ℤ), socket') ∧
    slice t.content s.position n = (Http.content socket).take n ∧
    Http.content socket' = (Http.content socket).drop n ∧ t.position = s.position + n

/-- Without buffers nothing is taken from the stream, which has more. -/
theorem read_eq (fill : ℕ → ℕ → UInt8) (s : ByteArray) (length : ℕ) {socket : Socket}
    (hs : Http.Arrivals socket) : read fill true s length socket = .returns s (0, socket) := by
  have hbuf : Http.read 0 socket = (some [], socket) := by
    cases socket with
    | nil => rfl
    | cons c socket =>
      obtain ⟨b, rfl, hb⟩ := hs.head
      have hlength : ¬b.length ≤ 0 := by
        intro hle
        exact hb (List.length_eq_zero_iff.mp (Nat.le_zero.mp hle))
      rw [Http.read, if_neg hlength]
      rfl
  show (match Http.read 0 socket with
    | (none, socket) => Outcome.returns s (-1, socket)
    | (some buf, socket) => _) = _
  rw [hbuf]
  rfl

/-- For every `ByteArray` and every socket with as many bytes. -/
theorem receives_iff_zero (fill : ℕ → ℕ → UInt8) (s : ByteArray) {socket : Socket}
    (hs : Http.Arrivals socket) (hn : n ≤ (Http.content socket).length) (hint : n < 2 ^ 31) :
    Receives fill s n socket ↔ n = 0 := by
  constructor
  · rintro ⟨t, socket', hread, -⟩
    by_contra hne
    have hloop := fixSizeLoop_stop (Nat.pos_of_ne_zero hne) (read_eq fill s n hs) le_rfl
    rw [readFixSize, fixSize, hloop] at hread
    have hresult := congrArg Prod.fst (Outcome.returns.inj hread).2
    replace hresult : toInt 0 = (n : ℤ) := hresult
    rw [toInt_eq (by norm_num) (by norm_num)] at hresult
    omega
  · rintro rfl
    refine ⟨s, socket, ?_, rfl, rfl, rfl⟩
    rw [readFixSize, fixSize, Nat.cast_zero, fixSizeLoop_zero]
    rfl

/-- Two bytes have arrived, and one is asked for. -/
theorem receives_iff_zero_one :
    (Http.Arrivals [some [1, 2]] ∧ 1 ≤ (Http.content [some [1, 2]]).length ∧ 1 < 2 ^ 31) ∧
    (Receives (fun _ _ => 0) (init (fun _ _ => 0) 4) 1 [some [1, 2]] ↔ 1 = 0) := by
  have hs : Http.Arrivals [some [1, 2]] := by
    intro c hc
    exact ⟨[1, 2], List.mem_singleton.mp hc, by decide⟩
  exact ⟨⟨hs, by decide, by decide⟩,
    receives_iff_zero (fun _ _ => 0) _ hs (by decide) (by decide)⟩

/-- The same call, which returns 0. -/
theorem not_receives_one :
    readFixSize (fun _ _ => 0) true (init (fun _ _ => 0) 4) 1 [some [1, 2]] =
      .returns (init (fun _ _ => 0) 4) (0, [some [1, 2]]) ∧
    ¬Receives (fun _ _ => 0) (init (fun _ _ => 0) 4) 1 [some [1, 2]] := by
  have hread : readFixSize (fun _ _ => 0) true (init (fun _ _ => 0) 4) 1 [some [1, 2]] =
      .returns (init (fun _ _ => 0) 4) (0, [some [1, 2]]) := by
    rw [readFixSize, fixSize, fixSizeLoop_stop Nat.one_pos rfl le_rfl]
    rfl
  refine ⟨hread, ?_⟩
  rintro ⟨t, socket', hread', -⟩
  rw [hread] at hread'
  cases hread'

/-! ### Output -/

/-- Every call takes at least a byte of what is offered, and not more than that. -/
def PartialSends (send : ℕ → List UInt8 → ℤ) : Prop :=
  ∀ i bs, bs ≠ [] → 1 ≤ send i bs ∧ send i bs ≤ bs.length

variable {send : ℕ → List UInt8 → ℤ}

/-- **Step lemma.** One call puts the next bytes on the wire and moves the cursor over them. -/
theorem write_sends (hsend : PartialSends send) (h : s.Wellformed) (hn : 0 < n)
    (hle : s.position + n ≤ s.size) (hint : n < 2 ^ 31) (w : Wire) :
    ∃ t k, 0 < k ∧ k ≤ n ∧ write send true s n w =
        .returns t ((k : ℤ), ⟨w.sent ++ slice s.content s.position k, w.calls + 1⟩) ∧
      Becomes s t s.content (s.position + k) s.size := by
  have hsize := h.size
  have hmod := Nat.mod_lt s.position h.base
  obtain ⟨iovs, hcall, hbytes⟩ := h.getReadBuffers n
  have hmin : min n (s.size - s.position) = n := by omega
  rw [hmin] at hcall hbytes
  -- the bytes that are offered, of which there is at least one
  obtain ⟨m, hm⟩ : ∃ m, m = min n (s.baseSize - s.position % s.baseSize) := ⟨_, rfl⟩
  rw [← hm] at hbytes
  have hlength : (slice s.content s.position m).length = m :=
    length_slice (by rw [h.length_content]; omega)
  have hne : slice s.content s.position m ≠ [] := List.ne_nil_of_length_pos (by omega)
  obtain ⟨hlow, hhigh⟩ := hsend w.calls _ hne
  rw [hlength] at hhigh
  obtain ⟨k, hk⟩ := Int.eq_ofNat_of_zero_le
    (show 0 ≤ send w.calls (slice s.content s.position m) by omega)
  obtain ⟨t, hset, ht⟩ := h.setPosition (show s.position + k ≤ s.capacity by omega)
  have hstays : max s.size (s.position + k) = s.size := by omega
  rw [hstays] at ht
  have htake : (slice s.content s.position m).take k = slice s.content s.position k := by
    rw [slice, List.take_take, Nat.min_eq_left (by omega)]
    rfl
  refine ⟨t, k, by omega, by omega, ?_, ht⟩
  rw [write, if_pos rfl, hcall]
  show (if 0 < toInt (send w.calls (iovs.map s.fetch).flatten) then _ else _ : Outcome _) = _
  rw [hbytes, hk, toInt_eq (by omega) (by omega), if_pos (by omega), Int.toNat_natCast, hset, htake]
  rfl

/-- **Run lemma.** The loop goes on until all bytes are on the wire. -/
theorem fixSizeLoop_sends (hsend : PartialSends send) (h : s.Wellformed)
    (hle : s.position + n ≤ s.size) (hint : n < 2 ^ 31) (w : Wire) :
    ∃ t w', fixSizeLoop (write send true) s n w = .returns t (none, w') ∧
      w'.sent = w.sent ++ slice s.content s.position n ∧
      Becomes s t s.content (s.position + n) s.size := by
  induction n using Nat.strong_induction_on generalizing s w with
  | _ n ih =>
    rcases Nat.eq_zero_or_pos n with rfl | hpos
    · refine ⟨s, w, fixSizeLoop_zero, ?_, h, rfl, rfl, rfl, rfl, rfl, rfl⟩
      rw [slice_zero, List.append_nil]
    · obtain ⟨s₁, k, hk, hkn, hwrite, h₁⟩ := write_sends hsend h hpos hle hint w
      -- the rest is sent from the state that the first call leaves
      obtain ⟨t, w', hloop, hsent, ht⟩ := ih (n - k) (by omega) h₁.wellformed
        (by rw [h₁.position, h₁.size]; omega) (by omega)
        ⟨w.sent ++ slice s.content s.position k, w.calls + 1⟩
      have hsum : n = k + (n - k) := by omega
      refine ⟨t, w', ?_, ?_, ?_⟩
      · rw [fixSizeLoop_next hk hkn hwrite]
        exact hloop
      · have hbytes : slice s.content s.position n =
            slice s.content s.position k ++ slice s.content (s.position + k) (n - k) := by
          rw [← slice_add, ← hsum]
        rw [hsent, h₁.content, h₁.position, hbytes, List.append_assoc]
      · have hposition : s.position + n = s₁.position + (n - k) := by
          rw [h₁.position]
          omega
        rw [hposition, ← h₁.content, ← h₁.size]
        exact h₁.trans ht

/-- For every state that edits lead to, every number of bytes that there are, and every schedule of
partial sends. -/
theorem writeFixSize_sends (fill : ℕ → ℕ → UInt8) {b : ℕ} (hb : 1 ≤ b) (es : List Edit)
    (hsend : PartialSends send) :
    ∃ s, Transition.run (edited fill) (init fill b) es = some s ∧
      ∀ n ≤ s.getReadSize, n < 2 ^ 31 → ∀ w, ∃ t w',
        writeFixSize send true s n w = .returns t ((n : ℤ), w') ∧
        w'.sent = w.sent ++ slice s.content s.position n ∧
        t.position = s.position + n ∧ t.content = s.content ∧ t.size = s.size := by
  obtain ⟨s, hrun, hs⟩ := (refines_init fill hb).edits fill es
  have h := hs.wellformed
  refine ⟨s, hrun, fun n hn hint w => ?_⟩
  rw [getReadSize_eq h] at hn
  have hend := h.position
  obtain ⟨t, w', hloop, hsent, ht⟩ := fixSizeLoop_sends hsend h (by omega) hint w
  refine ⟨t, w', ?_, hsent, ht.position, ht.content, ht.size⟩
  rw [writeFixSize, fixSize, hloop]
  show Outcome.returns t (toInt (n : ℤ), w') = _
  rw [toInt_eq (by omega) (by omega)]

/-- Three bytes from the second one on, in blocks of two, where the kernel takes a byte a call. -/
theorem writeFixSize_sends_three :
    (1 ≤ 2 ∧ PartialSends fun _ _ => 1) ∧
    ∃ s, Transition.run (edited fun _ _ => 0) (init (fun _ _ => 0) 2)
        [.write [1, 2, 3, 4], .setPosition 1] = some s ∧
      ∀ n ≤ s.getReadSize, n < 2 ^ 31 → ∀ w, ∃ t w',
        writeFixSize (fun _ _ => 1) true s n w = .returns t ((n : ℤ), w') ∧
        w'.sent = w.sent ++ slice s.content s.position n ∧
        t.position = s.position + n ∧ t.content = s.content ∧ t.size = s.size := by
  have hsend : PartialSends fun _ _ => 1 := by
    intro i bs hbs
    have hpos := List.length_pos_of_ne_nil hbs
    refine ⟨le_rfl, ?_⟩
    show (1 : ℤ) ≤ bs.length
    omega
  exact ⟨⟨by decide, hsend⟩, writeFixSize_sends (fun _ _ => 0) (by decide) _ hsend⟩

end Muhui.SocketStream
