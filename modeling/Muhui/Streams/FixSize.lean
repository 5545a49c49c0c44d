/-
  `Stream::readFixSize` and `Stream::writeFixSize` with a buffer (`stream.cc`).

  Both call a virtual function for the rest of the buffer until nothing is left or a result is not
  positive.  Whatever the results are, what the calls transfer lies at consecutive places from the
  beginning of the buffer on, and no call is handed a byte outside (`fixSize_right`).  `Replies` are
  the calls, each for what the ones before it have left.

  Handing out bytes that are not in the buffer is `none`.
-/
import Muhui.Encoding.Signed
import Mathlib.Data.List.Basic

namespace Muhui.Stream

/-! ### The loop -/

/-- The loop of both functions; `call` is the virtual function, from its place in the buffer on, for
a number of bytes. The result is an `int`, the offset a `size_t`. What is left and a result are
positive, and their difference is an `int64_t`. -/
def fixSizeLoop {σ : Type*} (call : ℕ → ℕ → σ → Option (ℤ × σ)) (length offset : ℕ) (left : ℤ)
    (x : σ) : Option (ℤ × σ) :=
  if 0 < left then
    (call offset left.toNat x).bind fun len =>
      if len.1 ≤ 0 then some (signed 32 len.1, len.2)
      else fixSizeLoop call length (unsigned 64 (offset + len.1)) (left - len.1) len.2
  else some (signed 32 length, x)
termination_by left.toNat

/-- `length` becomes an `int64_t`. -/
def fixSize {σ : Type*} (call : ℕ → ℕ → σ → Option (ℤ × σ)) (length : ℕ) (x : σ) :
    Option (ℤ × σ) :=
  fixSizeLoop call length 0 (signed 64 length) x

/-! ### Reading -/

/-- How the virtual `read` ends: it has stored bytes, or returns another number. -/
inductive Reply
  | bytes (chunk : List UInt8)
  | stop (r : ℤ)
  deriving DecidableEq

namespace Reply

def result : Reply → ℤ
  | bytes chunk => chunk.length
  | stop r => r

def chunk : Reply → List UInt8
  | bytes chunk => chunk
  | stop _ => []

/-- A result that `read` may return when it is asked for `length` bytes. -/
def Fits (length : ℕ) : Reply → Prop
  | bytes chunk => chunk ≠ [] ∧ chunk.length ≤ length
  | stop r => -2 ^ 31 ≤ r ∧ r ≤ 0

end Reply

/-- A virtual `read`. -/
structure Source (σ : Type*) where
  next : ℕ → σ → Reply × σ
  fits : ∀ length x, (next length x).1.Fits length

/-- What calls of `read` reply, the first of them for `n` bytes and each other one for those that
are left, and the stream behind them. -/
inductive Source.Replies {σ : Type*} (source : Source σ) (n : ℕ) (x : σ) : List Reply → σ → Prop
  | none : Replies source n x [] x
  | next {replies : List Reply} {y : σ} (h : Replies source n x replies y) :
    Replies source n x
      (replies ++ [(source.next (n - (replies.flatMap Reply.chunk).length) y).1])
      (source.next (n - (replies.flatMap Reply.chunk).length) y).2

/-- The buffer and the stream, and what the calls have returned and delivered. -/
structure Reading (σ : Type*) where
  buffer : List UInt8
  stream : σ
  results : List ℤ
  delivered : List UInt8

variable {σ : Type*}

def Reading.start (buffer : List UInt8) (x : σ) : Reading σ :=
  { buffer := buffer, stream := x, results := [], delivered := [] }

/-- A call of `read` with `buffer + offset` and `length`. -/
def read (source : Source σ) (offset length : ℕ) (s : Reading σ) : Option (ℤ × Reading σ) :=
  if offset + length ≤ s.buffer.length then
    let (reply, x) := source.next length s.stream
    some (reply.result,
      { buffer := s.buffer.take offset ++ reply.chunk ++
          s.buffer.drop (offset + reply.chunk.length)
        stream := x
        results := s.results ++ [reply.result]
        delivered := s.delivered ++ reply.chunk })
  else none

def readFixSize (source : Source σ) (length : ℕ) (s : Reading σ) : Option (ℤ × Reading σ) :=
  fixSize (read source) length s

/-! ### Writing -/

/-- A virtual `write`: it takes as many of the bytes that it is offered as it returns, or none. -/
structure Sink (σ : Type*) where
  next : List UInt8 → σ → ℤ × σ
  le : ∀ data x, (next data x).1 ≤ data.length
  int : ∀ data x, -2 ^ 31 ≤ (next data x).1

/-- What calls of `write` return, the first of them with all of the data and each other one with the
bytes that are left, and the stream behind them. -/
inductive Sink.Replies {σ : Type*} (sink : Sink σ) (data : List UInt8) (x : σ) :
    List ℤ → σ → Prop
  | none : Replies sink data x [] x
  | next {results : List ℤ} {y : σ} (h : Replies sink data x results y) :
    Replies sink data x
      (results ++ [(sink.next (data.drop (results.map Int.toNat).sum) y).1])
      (sink.next (data.drop (results.map Int.toNat).sum) y).2

/-- The stream, and what the calls have returned and taken. -/
structure Writing (σ : Type*) where
  stream : σ
  results : List ℤ
  accepted : List UInt8

def Writing.start (x : σ) : Writing σ := { stream := x, results := [], accepted := [] }

/-- A call of `write` with `buffer + offset` and `length`. -/
def write (sink : Sink σ) (buffer : List UInt8) (offset length : ℕ) (s : Writing σ) :
    Option (ℤ × Writing σ) :=
  if offset + length ≤ buffer.length then
    let data := (buffer.drop offset).take length
    let (len, x) := sink.next data s.stream
    some (len,
      { stream := x
        results := s.results ++ [len]
        accepted := s.accepted ++ data.take len.toNat })
  else none

def writeFixSize (sink : Sink σ) (buffer : List UInt8) (length : ℕ) (s : Writing σ) :
    Option (ℤ × Writing σ) :=
  fixSize (write sink buffer) length s

/-! ### The promise -/

/-- Results that are positive and make up `total` bytes. -/
structure Good (total : ℕ) (results : List ℤ) : Prop where
  pos : ∀ len ∈ results, 0 < len
  sum : results.sum = total

/-- What is returned when calls with these results have transferred `total` bytes of `n`: `n`
exactly when they are all, and otherwise the first result that is not positive. -/
structure Returns (n total : ℕ) (results : List ℤ) (r : ℤ) : Prop where
  le : total ≤ n
  all : r = n ↔ total = n
  first : Good total results ∧ r = n ∨
    ∃ good, Good total good ∧ results = good ++ [r] ∧ r ≤ 0 ∧ r ≠ n

theorem good_nil : Good 0 [] := ⟨by simp, by simp⟩

theorem Good.append {total k : ℕ} {results : List ℤ} (h : Good total results) (hk : 0 < k) :
    Good (total + k) (results ++ [(k : ℤ)]) := by
  constructor
  · intro len hmem
    rcases List.mem_append.mp hmem with hmem | hmem
    · exact h.pos len hmem
    · rw [List.mem_singleton.mp hmem]
      exact_mod_cast hk
  · simp [h.sum]

theorem returns_all {n : ℕ} {results : List ℤ} (h : Good n results) : Returns n n results n where
  le := le_rfl
  all := by simp
  first := .inl ⟨h, rfl⟩

theorem returns_stop {n total : ℕ} {good : List ℤ} {r : ℤ} (h : Good total good) (hlt : total < n)
    (hr : r ≤ 0) : Returns n total (good ++ [r]) r where
  le := hlt.le
  all := by omega
  first := .inr ⟨good, h, rfl, hr, by omega⟩

/-! ### Runs of the loop -/

section Run

variable {call : ℕ → ℕ → σ → Option (ℤ × σ)} {n offset : ℕ} {x : σ}

theorem fixSizeLoop_zero (hn : n < 2 ^ 31) (offset : ℕ) (x : σ) :
    fixSizeLoop call n offset 0 x = some ((n : ℤ), x) := by
  rw [fixSizeLoop, if_neg (lt_irrefl 0), (signed_eq_iff (by decide)).mpr]
  omega

/-- A call that ends the loop. -/
theorem fixSizeLoop_stop {left : ℕ} {len : ℤ} {y : σ} (hleft : 0 < left)
    (hcall : call offset left x = some (len, y)) (hint : -2 ^ 31 ≤ len) (hlen : len ≤ 0) :
    fixSizeLoop call n offset left x = some (len, y) := by
  rw [fixSizeLoop, if_pos (by omega), Int.toNat_natCast, hcall]
  simp only [Option.bind_some, if_pos hlen]
  rw [(signed_eq_iff (by decide)).mpr]
  omega

/-- A call behind which the loop goes on. -/
theorem fixSizeLoop_next {left k : ℕ} {y : σ} (hk : 0 < k) (hle : k ≤ left)
    (hsize : offset + k < 2 ^ 64) (hcall : call offset left x = some ((k : ℤ), y)) :
    fixSizeLoop call n offset left x = fixSizeLoop call n (offset + k) (left - k : ℕ) y := by
  have hoffset : unsigned 64 (offset + k) = offset + k := by
    have := (unsigned_eq_iff (w := 64) (x := offset + k)).mpr (by omega)
    omega
  rw [fixSizeLoop, if_pos (by omega), Int.toNat_natCast, hcall]
  simp only [Option.bind_some]
  rw [if_neg (by omega), hoffset, Nat.cast_sub hle]

/-- The rule of the loop, where `Holds total` is what a call keeps as long as `total` counts the
bytes that have been transferred. -/
theorem fixSizeLoop_returns (hn : n < 2 ^ 31) {Holds : ℕ → σ → Prop} {results : σ → List ℤ}
    (hcall : ∀ offset x, offset < n → Holds offset x → ∃ len y,
      call offset (n - offset) x = some (len, y) ∧ (-2 ^ 31 ≤ len ∧ len ≤ (n - offset : ℕ)) ∧
        Holds (offset + len.toNat) y ∧ results y = results x ++ [len])
    (hle : offset ≤ n) (hx : Holds offset x) (hgood : Good offset (results x)) :
    ∃ r y total, fixSizeLoop call n offset (n - offset : ℕ) x = some (r, y) ∧
      Holds total y ∧ Returns n total (results y) r := by
  induction hd : n - offset using Nat.strong_induction_on generalizing offset x with
  | _ d ih =>
    rcases Nat.eq_or_lt_of_le hle with rfl | hlt
    · refine ⟨offset, x, offset, ?_, hx, returns_all hgood⟩
      rw [← hd, Nat.sub_self]
      exact fixSizeLoop_zero hn offset x
    · obtain ⟨len, y, hcall', hlen, hy, hresults⟩ := hcall offset x hlt hx
      rw [hd] at hcall'
      by_cases hstop : len ≤ 0
      · rw [Int.toNat_of_nonpos hstop] at hy
        refine ⟨len, y, offset, fixSizeLoop_stop (by omega) hcall' hlen.1 hstop, hy, ?_⟩
        rw [hresults]
        exact returns_stop hgood hlt hstop
      · obtain ⟨k, rfl⟩ := Int.eq_ofNat_of_zero_le (show 0 ≤ len by omega)
        have hgood' : Good (offset + k) (results y) := by
          rw [hresults]
          exact hgood.append (by omega)
        obtain ⟨r, z, total, hloop, hz⟩ := ih (d - k) (by omega) (by omega) hy hgood' (by omega)
        refine ⟨r, z, total, ?_, hz⟩
        rw [← hloop]
        exact fixSizeLoop_next (by omega) (by omega) (by omega) hcall'

theorem fixSize_returns (hn : n < 2 ^ 31) {Holds : ℕ → σ → Prop} {results : σ → List ℤ}
    (hcall : ∀ offset x, offset < n → Holds offset x → ∃ len y,
      call offset (n - offset) x = some (len, y) ∧ (-2 ^ 31 ≤ len ∧ len ≤ (n - offset : ℕ)) ∧
        Holds (offset + len.toNat) y ∧ results y = results x ++ [len])
    (hx : Holds 0 x) (hresults : results x = []) :
    ∃ r y total, fixSize call n x = some (r, y) ∧
      Holds total y ∧ Returns n total (results y) r := by
  have hleft : signed 64 n = n := by
    rw [signed_eq_iff (by decide)]
    omega
  unfold fixSize
  rw [hleft]
  apply fixSizeLoop_returns hn hcall (Nat.zero_le n) hx
  rw [hresults]
  exact good_nil

end Run

/-! ### The calls -/

theorem Reply.Fits.length_chunk {reply : Reply} {length : ℕ} (h : reply.Fits length) :
    reply.chunk.length = reply.result.toNat := by
  cases reply with
  | bytes chunk => exact (Int.toNat_natCast _).symm
  | stop r => exact (Int.toNat_of_nonpos h.2).symm

theorem Reply.Fits.bounds {reply : Reply} {length : ℕ} (h : reply.Fits length) :
    -2 ^ 31 ≤ reply.result ∧ reply.result ≤ length := by
  cases reply with
  | bytes chunk =>
    have hle := h.2
    simp only [Reply.result]
    omega
  | stop r =>
    have hr := h.2
    exact ⟨h.1, show r ≤ length by omega⟩

/-- The state after calls that have stored `offset` bytes. -/
structure Reading.Holds (source : Source σ) (buffer : List UInt8) (x : σ) (offset : ℕ)
    (s : Reading σ) : Prop where
  length : s.delivered.length = offset
  stored : s.buffer = s.delivered ++ buffer.drop offset
  replied : ∃ replies, source.Replies buffer.length x replies s.stream ∧
    s.results = replies.map Reply.result ∧ s.delivered = replies.flatMap Reply.chunk

variable {buffer : List UInt8} {offset : ℕ} {x : σ}

theorem Reading.Holds.read {source : Source σ} {s : Reading σ}
    (h : s.Holds source buffer x offset) :
    ∃ (len : ℤ) (t : Reading σ), read source offset (buffer.length - offset) s = some (len, t) ∧
      (-2 ^ 31 ≤ len ∧ len ≤ (buffer.length - offset : ℕ)) ∧
      t.Holds source buffer x (offset + len.toNat) ∧ t.results = s.results ++ [len] := by
  rcases hnext : source.next (buffer.length - offset) s.stream with ⟨reply, y⟩
  have hfits := source.fits (buffer.length - offset) s.stream
  rw [hnext] at hfits
  have hroom : offset + (buffer.length - offset) ≤ s.buffer.length := by
    rw [h.stored, List.length_append, List.length_drop, h.length]
  unfold Stream.read
  rw [if_pos hroom, hnext]
  refine ⟨reply.result, _, rfl, hfits.bounds, ⟨?_, ?_, ?_⟩, rfl⟩
  · rw [List.length_append, h.length, hfits.length_chunk]
  · have htake : s.buffer.take offset = s.delivered := by
      rw [h.stored, ← h.length, List.take_left]
    have hdrop : s.buffer.drop (offset + reply.chunk.length) =
        buffer.drop (offset + reply.chunk.length) := by
      rw [h.stored, ← List.drop_drop, ← h.length, List.drop_left, List.drop_drop]
    show s.buffer.take offset ++ reply.chunk ++ s.buffer.drop (offset + reply.chunk.length) = _
    rw [htake, hdrop, hfits.length_chunk]
  · obtain ⟨replies, hreplies, hresults, hdelivered⟩ := h.replied
    have hreplies' := hreplies.next
    rw [← hdelivered, h.length, hnext] at hreplies'
    exact ⟨replies ++ [reply], hreplies', by simp [hresults], by simp [hdelivered]⟩

/-- The state after calls that have taken `offset` bytes. -/
structure Writing.Holds (sink : Sink σ) (buffer : List UInt8) (x : σ) (offset : ℕ)
    (s : Writing σ) : Prop where
  taken : s.accepted = buffer.take offset
  sum : (s.results.map Int.toNat).sum = offset
  replied : sink.Replies buffer x s.results s.stream

theorem Writing.Holds.write {sink : Sink σ} {s : Writing σ} (h : s.Holds sink buffer x offset)
    (hle : offset ≤ buffer.length) :
    ∃ (len : ℤ) (t : Writing σ),
      write sink buffer offset (buffer.length - offset) s = some (len, t) ∧
      (-2 ^ 31 ≤ len ∧ len ≤ (buffer.length - offset : ℕ)) ∧
      t.Holds sink buffer x (offset + len.toNat) ∧ t.results = s.results ++ [len] := by
  have hdata : (buffer.drop offset).take (buffer.length - offset) = buffer.drop offset := by
    rw [List.take_of_length_le]
    rw [List.length_drop]
  rcases hnext : sink.next (buffer.drop offset) s.stream with ⟨len, y⟩
  have hlen := sink.le (buffer.drop offset) s.stream
  have hint := sink.int (buffer.drop offset) s.stream
  rw [hnext] at hlen hint
  rw [List.length_drop] at hlen
  unfold Stream.write
  rw [if_pos (by omega), hdata]
  simp only [hnext]
  refine ⟨len, _, rfl, ⟨hint, hlen⟩, ⟨?_, ?_, ?_⟩, rfl⟩
  · show s.accepted ++ (buffer.drop offset).take len.toNat = buffer.take (offset + len.toNat)
    rw [h.taken, List.take_add]
  · simp [h.sum]
  · have hreplies := h.replied.next
    rwa [h.sum, hnext] at hreplies

/-! ### The functions -/

theorem readFixSize_returns (source : Source σ) (hn : buffer.length < 2 ^ 31) (x : σ) :
    ∃ r s, readFixSize source buffer.length (.start buffer x) = some (r, s) ∧
      (∃ replies, source.Replies buffer.length x replies s.stream ∧
        s.results = replies.map Reply.result ∧ s.delivered = replies.flatMap Reply.chunk) ∧
      s.buffer = s.delivered ++ buffer.drop s.delivered.length ∧
      Returns buffer.length s.delivered.length s.results r := by
  have hcall := fun offset (s : Reading σ) (_ : offset < buffer.length)
    (hs : s.Holds source buffer x offset) => hs.read
  have hstart : (Reading.start buffer x).Holds source buffer x 0 :=
    ⟨rfl, rfl, [], .none, rfl, rfl⟩
  obtain ⟨r, s, total, hrun, hs, hreturns⟩ := fixSize_returns hn hcall hstart rfl
  refine ⟨r, s, hrun, hs.replied, ?_⟩
  rw [hs.length]
  exact ⟨hs.stored, hreturns⟩

theorem writeFixSize_returns (sink : Sink σ) (hn : buffer.length < 2 ^ 31) (x : σ) :
    ∃ r s, writeFixSize sink buffer buffer.length (.start x) = some (r, s) ∧
      sink.Replies buffer x s.results s.stream ∧
      s.accepted = buffer.take s.accepted.length ∧
      Returns buffer.length s.accepted.length s.results r := by
  have hcall := fun offset (s : Writing σ) (hlt : offset < buffer.length)
    (hs : s.Holds sink buffer x offset) => hs.write hlt.le
  have hstart : (Writing.start x).Holds sink buffer x 0 := ⟨rfl, rfl, .none⟩
  obtain ⟨r, s, total, hrun, hs, hreturns⟩ := fixSize_returns hn hcall hstart rfl
  have hlength : s.accepted.length = total := by
    rw [hs.taken, List.length_take, min_eq_left hreturns.le]
  refine ⟨r, s, hrun, hs.replied, ?_⟩
  rw [hlength]
  exact ⟨hs.taken, hreturns⟩

/-- A sink that takes at least a byte of what it is offered, as long as its stream is `Up`. -/
def Sink.Eager (sink : Sink σ) (Up : σ → Prop) : Prop :=
  ∀ data x, Up x → data ≠ [] → 0 < (sink.next data x).1 ∧ Up (sink.next data x).2

theorem of_write {sink : Sink σ} {length : ℕ} {s t : Writing σ} {len : ℤ}
    (h : write sink buffer offset length s = some (len, t)) :
    len = (sink.next ((buffer.drop offset).take length) s.stream).1 ∧
      t.stream = (sink.next ((buffer.drop offset).take length) s.stream).2 := by
  unfold write at h
  split_ifs at h
  obtain ⟨rfl, rfl⟩ := Prod.mk.inj (Option.some.inj h)
  exact ⟨rfl, rfl⟩

/-- An eager sink takes all of the buffer. -/
theorem writeFixSize_eager {sink : Sink σ} {Up : σ → Prop} (heager : sink.Eager Up)
    (hn : buffer.length < 2 ^ 31) {x : σ} (hx : Up x) :
    ∃ s, writeFixSize sink buffer buffer.length (.start x) = some ((buffer.length : ℤ), s) ∧
      s.accepted = buffer ∧ Up s.stream := by
  have hcall (offset : ℕ) (s : Writing σ) (hlt : offset < buffer.length)
      (hs : s.Holds sink buffer x offset ∧ Up s.stream ∧ ∀ len ∈ s.results, 0 < len) :
      ∃ len t, write sink buffer offset (buffer.length - offset) s = some (len, t) ∧
        (-2 ^ 31 ≤ len ∧ len ≤ (buffer.length - offset : ℕ)) ∧
        (t.Holds sink buffer x (offset + len.toNat) ∧ Up t.stream ∧ ∀ len ∈ t.results, 0 < len) ∧
        t.results = s.results ++ [len] := by
    obtain ⟨len, t, hwrite, hlen, ht, hresults⟩ := hs.1.write hlt.le
    obtain ⟨hnext, hstream⟩ := of_write hwrite
    have hdata : (buffer.drop offset).take (buffer.length - offset) ≠ [] := by
      rw [Ne, List.take_eq_nil_iff, List.drop_eq_nil_iff]
      omega
    obtain ⟨hpos, hup⟩ := heager _ s.stream hs.2.1 hdata
    rw [← hnext] at hpos
    rw [← hstream] at hup
    refine ⟨len, t, hwrite, hlen, ⟨ht, hup, ?_⟩, hresults⟩
    rw [hresults]
    intro k hk
    rcases List.mem_append.mp hk with hk | hk
    · exact hs.2.2 k hk
    · rw [List.mem_singleton.mp hk]
      exact hpos
  have hstart : (Writing.start x).Holds sink buffer x 0 ∧ Up (Writing.start x).stream ∧
      ∀ len ∈ (Writing.start x).results, 0 < len := ⟨⟨rfl, rfl, .none⟩, hx, nofun⟩
  obtain ⟨r, s, total, hrun, ⟨hs, hup, hpos⟩, hreturns⟩ := fixSize_returns hn hcall hstart rfl
  rcases hreturns.first with ⟨-, hr⟩ | ⟨good, -, hgood, hr, -⟩
  · have htotal := hreturns.all.mp hr
    rw [hr] at hrun
    refine ⟨s, hrun, ?_, hup⟩
    rw [hs.taken, htotal, List.take_length]
  · -- the last result is positive as well
    have hmem : r ∈ s.results := by
      rw [hgood]
      exact List.mem_append_right _ List.mem_cons_self
    exact absurd (hpos r hmem) (not_lt.mpr hr)

/-- **Transfer.** Whatever a virtual `read` and `write` return, positive or not, the functions end
with a result: what the calls of `read` have delivered is at the beginning of the buffer, of which
the rest is as before, and what the calls of `write` have taken is its beginning. The calls are for
what is left each time, one after the other, and the result is the length exactly when that is all
of the buffer, and otherwise the first result that is not positive. No call is handed a byte outside
the buffer. -/
theorem fixSize_right {τ : Type*} (source : Source σ) (sink : Sink τ) (buffer : List UInt8)
    (hn : buffer.length < 2 ^ 31) (x : σ) (y : τ) :
    (∃ r s, readFixSize source buffer.length (.start buffer x) = some (r, s) ∧
        (∃ replies, source.Replies buffer.length x replies s.stream ∧
          s.results = replies.map Reply.result ∧ s.delivered = replies.flatMap Reply.chunk) ∧
        s.buffer = s.delivered ++ buffer.drop s.delivered.length ∧
        Returns buffer.length s.delivered.length s.results r) ∧
      ∃ r s, writeFixSize sink buffer buffer.length (.start y) = some (r, s) ∧
        sink.Replies buffer y s.results s.stream ∧
        s.accepted = buffer.take s.accepted.length ∧
        Returns buffer.length s.accepted.length s.results r :=
  ⟨readFixSize_returns source hn x, writeFixSize_returns sink hn y⟩

/-- Delivers two bytes at a time, and 0 behind the last one. -/
def pairs : Source (List UInt8) where
  next length x :=
    (match x.take (min 2 length) with
      | [] => .stop 0
      | b :: bs => .bytes (b :: bs), x.drop (min 2 length))
  fits length x := by
    have hle := List.length_take_le (min 2 length) x
    cases htake : x.take (min 2 length) with
    | nil => exact ⟨by decide, le_rfl⟩
    | cons b bs =>
      rw [htake] at hle
      exact ⟨List.cons_ne_nil b bs, hle.trans (min_le_right _ _)⟩

/-- Takes a byte in each of some calls, and fails then. -/
def singles : Sink ℕ where
  next data x := if x = 0 then (-1, 0) else (min 1 data.length, x - 1)
  le data x := by
    split_ifs
    · show (-1 : ℤ) ≤ data.length
      omega
    · show (min 1 data.length : ℤ) ≤ data.length
      omega
  int data x := by
    split_ifs
    · show (-2 ^ 31 : ℤ) ≤ -1
      omega
    · show (-2 ^ 31 : ℤ) ≤ (min 1 data.length : ℤ)
      omega

theorem fixSize_right_five :
    (∃ r s, readFixSize pairs 5 (.start [0, 0, 0, 0, 0] [1, 2, 3]) = some (r, s) ∧
        (∃ replies, pairs.Replies 5 [1, 2, 3] replies s.stream ∧
          s.results = replies.map Reply.result ∧ s.delivered = replies.flatMap Reply.chunk) ∧
        s.buffer = s.delivered ++ [0, 0, 0, 0, 0].drop s.delivered.length ∧
        Returns 5 s.delivered.length s.results r) ∧
      ∃ r s, writeFixSize singles [0, 0, 0, 0, 0] 5 (.start 2) = some (r, s) ∧
        singles.Replies [0, 0, 0, 0, 0] 2 s.results s.stream ∧
        s.accepted = [0, 0, 0, 0, 0].take s.accepted.length ∧
        Returns 5 s.accepted.length s.results r :=
  fixSize_right pairs singles [0, 0, 0, 0, 0] (by decide) [1, 2, 3] 2

example : (readFixSize pairs 5 (.start [0, 0, 0, 0, 0] [1, 2, 3])).map
    (fun p => (p.1, p.2.buffer, p.2.results)) = some (0, [1, 2, 3, 0, 0], [2, 1, 0]) := by
  decide +kernel

end Muhui.Stream
