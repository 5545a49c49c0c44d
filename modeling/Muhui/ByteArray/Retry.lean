/-
  Typed reads of a `ByteArray` that does not hold all bytes of the value yet.

  A primitive read that throws leaves the cursor where it is.  A typed read may be made of several
  primitive ones, and what the earlier ones have moved the cursor over is not given back: the first
  bytes of a variable-length number, or the length of a string.
-/
import Muhui.ByteArray.Safety
import Muhui.ByteArray.Varint

namespace Muhui.ByteArray

/-- The read returns a value and moves the cursor over the `length` bytes of its encoding, or throws
`std::out_of_range` and leaves the cursor, the size and the content as they are. -/
def Retries {α : Type} (s : ByteArray) (length : Option ℕ) (o : Outcome (Except LengthError α)) :
    Prop :=
  (∃ t a n, o = .returns t (.ok a) ∧ length = some n ∧ t.position = s.position + n) ∨
    ∃ t, o = .throws t ∧ t.position = s.position ∧ t.size = s.size ∧ t.content = s.content

/-- The number of bytes that a value takes at the cursor; `none` where its end has not arrived. -/
def lengthAt (s : ByteArray) (kind : Kind) : Option ℕ :=
  match kind.shape with
  | .word w _ => some w
  | .varint bits _ => textLength ((bits + 6) / 7) s.readable

/-- The number of bytes that a string takes at the cursor, with its length. -/
def stringLengthAt (P : Platform) (s : ByteArray) : Framing → Option ℕ
  | .f16 => some (2 + s.wordAt P 2)
  | .f32 => some (4 + s.wordAt P 4)
  | .f64 => some (8 + s.wordAt P 8)
  | .vint => (textLength 10 s.readable).map fun k => k + ofText (s.readable.take k) % 2 ^ 64

/-- A word has not arrived, or does not leave the block in whose middle it begins; of a
variable-length number there is nothing, or all of it. -/
def ValueArrived (s : ByteArray) (kind : Kind) : Prop :=
  match kind.shape with
  | .word w _ => s.Readable s.position w
  | .varint bits _ => s.position = s.size ∨ (textLength ((bits + 6) / 7) s.readable).isSome

/-- The length has not arrived, or all bytes of the string have, and neither the length nor the
string leaves the block in whose middle it begins. -/
def LengthArrived (P : Platform) (s : ByteArray) (w : ℕ) : Prop :=
  s.size < s.position + w ∨ s.Fits s.position w ∧ s.wordAt P w ≤ P.maxSize ∧
    s.position + w + s.wordAt P w ≤ s.size ∧ s.Fits (s.position + w) (s.wordAt P w)

def StringArrived (P : Platform) (s : ByteArray) : Framing → Prop
  | .f16 => LengthArrived P s 2
  | .f32 => LengthArrived P s 4
  | .f64 => LengthArrived P s 8
  | .vint => s.size < s.position + 8

variable {P : Platform} {s t t' : ByteArray} {α : Type} {w n : ℕ} {a : List UInt8}

/-! ### Variable-length numbers -/

theorem Wellformed.readable_cons (h : s.Wellformed) {b : UInt8} {bs : List UInt8}
    (hbytes : s.readable = b :: bs) :
    s.position + 1 ≤ s.size ∧ slice s.content s.position 1 = [b] ∧
      slice s.content (s.position + 1) (s.size - (s.position + 1)) = bs := by
  obtain ⟨hlength, hfirst, hrest⟩ := h.readable_append (show s.readable = [b] ++ bs from hbytes)
  rw [List.length_singleton] at hlength hfirst hrest
  have hsize : s.size - (s.position + 1) = bs.length := by omega
  refine ⟨by omega, hfirst, ?_⟩
  rw [hsize, hrest]

/-- The loop ends behind the text, or at the end of all bytes. -/
theorem Wellformed.readLoopVarint_cases (h : s.Wellformed) (bits i result passes : ℕ) :
    (∃ k t v, textLength passes s.readable = some k ∧
      ByteArray.readLoopVarint bits s i result passes = .returns t v ∧
        t.position = s.position + k) ∨
    ∃ t, textLength passes s.readable = none ∧
      ByteArray.readLoopVarint bits s i result passes = .throws t ∧
        Becomes s t s.content s.size s.size := by
  induction passes generalizing s i result with
  | zero => exact .inl ⟨0, s, result, rfl, rfl, rfl⟩
  | succ passes ih =>
    cases hbytes : s.readable with
    | nil =>
      have hlength := h.length_readable
      have hle := h.position
      rw [hbytes, List.length_nil] at hlength
      have hend : s.position = s.size := by omega
      refine .inr ⟨s, rfl, ?_, h, rfl, hend, rfl, rfl, rfl, rfl⟩
      rw [ByteArray.readLoopVarint, ByteArray.readFuint8, h.read, if_pos (by omega)]
      rfl
    | cons b bs =>
      obtain ⟨hsize, hfirst, hrest⟩ := h.readable_cons hbytes
      obtain ⟨s₁, hread, h₁⟩ := h.readFuint8 hsize hfirst
      have hbytes₁ : s₁.readable = bs := by
        rw [readable, h₁.content, h₁.position, h₁.size, hrest]
      have hstep : ByteArray.readLoopVarint bits s i result (passes + 1) =
          if b < 0x80 then .returns s₁ (result ||| (b.toNat <<< i) % 2 ^ bits)
          else ByteArray.readLoopVarint bits s₁ (i + 7)
            (result ||| ((b &&& 0x7f).toNat <<< i) % 2 ^ bits) passes := by
        rw [ByteArray.readLoopVarint, hread]
        rfl
      rw [hstep, textLength]
      by_cases hlow : b < 0x80
      · rw [if_pos hlow, if_pos ((byte_lt_0x80 b).mp hlow)]
        exact .inl ⟨1, s₁, _, rfl, rfl, h₁.position⟩
      · rw [if_neg hlow, if_neg (fun hlt => hlow ((byte_lt_0x80 b).mpr hlt))]
        -- the rest of the text is read in the state that the first byte leaves
        rcases ih h₁.wellformed (i + 7) (result ||| ((b &&& 0x7f).toNat <<< i) % 2 ^ bits) with
          ⟨k, t, v, hk, hloop, ht⟩ | ⟨t, hk, hloop, ht⟩
        · refine .inl ⟨k + 1, t, v, ?_, hloop, ?_⟩
          · rw [← hbytes₁, hk, Option.map_some]
          · rw [ht, h₁.position]
            omega
        · refine .inr ⟨t, ?_, hloop, ?_⟩
          · rw [← hbytes₁, hk, Option.map_none]
          · rw [← h₁.content, ← h₁.size]
            exact h₁.trans ht

/-! ### Words -/

/-- The cursor moved over `n` bytes, as `read` moves it. -/
def moved (s : ByteArray) (n : ℕ) : ByteArray :=
  { s with
    cur := s.nodeAt (s.position + n)
    position := s.position + n +
      if s.position % s.baseSize + n ≤ s.baseSize then 0 else s.position % s.baseSize }

theorem Wellformed.read_eq (h : s.Wellformed) (hn : 0 < n) :
    s.read n =
      if s.size < s.position + n then .throws s
      else .returns (s.moved n) (slice s.content s.position n) := by
  rw [h.read, if_neg (show n ≠ 0 by omega)]
  rfl

theorem Wellformed.readWord_eq (h : s.Wellformed) (hw : 0 < w) :
    s.readWord P w =
      if s.size < s.position + w then .throws s else .returns (s.moved w) (s.wordAt P w) := by
  rw [ByteArray.readWord, h.read_eq hw]
  split_ifs with hthrows
  · rfl
  · rfl

theorem moved_position (s : ByteArray) (n : ℕ) :
    (s.moved n).position = s.position + n +
      if s.position % s.baseSize + n ≤ s.baseSize then 0 else s.position % s.baseSize := rfl

/-- Only where the bytes leave the block in whose middle they begin, the cursor is moved too far. -/
theorem fits_iff_moved (hw : 0 < w) :
    s.Fits s.position w ↔ (s.moved w).position = s.position + w := by
  rw [Fits, if_neg (by omega), moved_position]
  split_ifs with hin
  · exact iff_of_true (.inr hin) rfl
  · omega

theorem le_moved (s : ByteArray) (n : ℕ) : s.position + n ≤ (s.moved n).position :=
  Nat.le_add_right _ _

theorem Wellformed.moved (h : s.Wellformed) (hsize : s.position + n ≤ s.size)
    (hposition : (s.moved n).position = s.position + n) : (s.moved n).Wellformed where
  base := h.base
  uniform := h.uniform
  root := h.root
  capacity := h.capacity
  size := h.size
  position := by
    rw [hposition]
    exact hsize
  cur := by
    rw [hposition]
    rfl

theorem Wellformed.retries_word (h : s.Wellformed) (hw : 0 < w) (of : ℕ → α) :
    Retries s (some w) ((s.readWord P w).map fun v => .ok (of v)) ↔ s.Readable s.position w := by
  rw [h.readWord_eq hw]
  by_cases hthrows : s.size < s.position + w
  · rw [if_pos hthrows]
    exact iff_of_true (.inr ⟨s, rfl, rfl, rfl, rfl⟩) (.inl hthrows)
  · rw [if_neg hthrows, Readable, fits_iff_moved hw]
    constructor
    · rintro (⟨t, a, n, ho, hn, hposition⟩ | ⟨t, ho, -⟩)
      · obtain ⟨rfl, -⟩ := Outcome.returns.inj ho
        obtain rfl := Option.some.inj hn
        exact .inr hposition
      · cases ho
    · intro hor
      exact .inl ⟨s.moved w, _, w, rfl, rfl, hor.resolve_left hthrows⟩

/-! ### Values -/

theorem Wellformed.retries_value_iff (h : s.Wellformed) (kind : Kind) :
    Retries s (s.lengthAt kind) ((s.readTyped P kind).map .ok) ↔ s.ValueArrived kind := by
  have hpos := shape_pos kind
  rw [readTyped_eq]
  unfold lengthAt ValueArrived
  cases hshape : kind.shape with
  | word w of =>
    rw [hshape] at hpos
    show Retries s (some w) (((s.readWord P w).map of).map .ok) ↔ _
    rw [map_map]
    exact h.retries_word hpos of
  | varint bits of =>
    rw [hshape] at hpos
    show Retries s _ (((s.readVarint bits).map of).map .ok) ↔
      s.position = s.size ∨ (textLength _ s.readable).isSome
    rw [map_map, ByteArray.readVarint]
    rcases h.readLoopVarint_cases bits 0 0 ((bits + 6) / 7) with
      ⟨k, t, v, hk, hloop, ht⟩ | ⟨t, hk, hloop, ht⟩
    · rw [hk, hloop]
      exact iff_of_true (.inl ⟨t, _, k, rfl, hk, ht⟩) (.inr rfl)
    · -- all bytes up to the size have been consumed
      rw [hk, hloop]
      constructor
      · rintro (⟨t', a, n, ho, -⟩ | ⟨t', ho, hposition, -⟩)
        · cases ho
        · obtain rfl := Outcome.throws.inj ho
          rw [ht.position] at hposition
          exact .inl hposition.symm
      · intro hor
        have hend := hor.resolve_right Bool.false_ne_true
        exact .inr ⟨t, rfl, ht.position.trans hend.symm, ht.size, ht.content⟩

/-! ### Strings -/

theorem readStringOf_ok {len : ℕ} (h : t.readStringOf P len = .returns t' (.ok a)) :
    len ≤ P.maxSize ∧ t.read len = .returns t' a := by
  unfold readStringOf at h
  split_ifs at h with hmax
  · obtain ⟨-, herror⟩ := Outcome.returns.inj h
    cases herror
  · obtain ⟨buf, hread, hbuf⟩ := map_eq_returns.mp h
    obtain rfl := Except.ok.inj hbuf
    exact ⟨by omega, hread⟩

theorem eq_of_readStringOf_throws {len : ℕ} (h : t.readStringOf P len = .throws t') : t' = t := by
  unfold readStringOf ByteArray.read at h
  split_ifs at h
  · exact (Outcome.throws.inj h).symm
  · cases hcur : t.cur with
    | none =>
      rw [hcur] at h
      cases h
    | some c =>
      simp only [hcur] at h
      cases hloop : readLoop (t.nodes.drop c) c (t.position % t.baseSize) t.position len with
      | none =>
        rw [hloop] at h
        cases h
      | some r =>
        rw [hloop] at h
        cases h

/-- Behind the length, a read that throws is too late, and one that returns has moved the cursor at
least over all bytes. -/
theorem Wellformed.retries_readStringOf (h : s.Wellformed) (hw : 0 < w)
    (hsize : s.position + w ≤ s.size) {length : Option ℕ}
    (hretries : Retries s length
      ((s.readWord P w).bind fun t v => t.readStringOf P v)) :
    ∃ t a n, (s.moved w).read (s.wordAt P w) = .returns t a ∧ s.wordAt P w ≤ P.maxSize ∧
      length = some n ∧ t.position = s.position + n ∧
        (s.moved w).position + s.wordAt P w ≤ t.position := by
  rw [h.readWord_eq hw, if_neg (by omega)] at hretries
  rcases hretries with ⟨t, a, n, ho, hn, hposition⟩ | ⟨t, ho, hposition, -⟩
  · obtain ⟨hmax, hread⟩ := readStringOf_ok ho
    exact ⟨t, a, n, hread, hmax, hn, hposition, le_of_read hread⟩
  · obtain rfl := eq_of_readStringOf_throws ho
    have hle := le_moved s w
    omega

theorem Wellformed.retries_string (h : s.Wellformed) (hw : 0 < w) :
    Retries s (some (w + s.wordAt P w)) ((s.readWord P w).bind fun t v => t.readStringOf P v) ↔
      LengthArrived P s w := by
  unfold LengthArrived
  by_cases hthrows : s.size < s.position + w
  · rw [h.readWord_eq hw, if_pos hthrows]
    exact iff_of_true (.inr ⟨s, rfl, rfl, rfl, rfl⟩) (.inl hthrows)
  rw [fits_iff_moved hw]
  constructor
  · intro hretries
    obtain ⟨t, a, n, hread, hmax, hn, hposition, hle⟩ :=
      h.retries_readStringOf hw (by omega) hretries
    obtain rfl := Option.some.inj hn
    have hmoved := le_moved s w
    have hw' : (s.moved w).position = s.position + w := by omega
    have h₁ := h.moved (by omega) hw'
    -- the cursor is behind the length, and the rest is one read of a wellformed state
    refine .inr ⟨hw', hmax, ?_⟩
    rw [← hw']
    rcases Nat.eq_zero_or_pos (s.wordAt P w) with hzero | hpos
    · have hend := h₁.position
      have hcapacity := h₁.size
      rw [hzero] at hread ⊢
      rw [h₁.read, if_neg (by omega), if_pos rfl] at hread
      split_ifs at hread with hnull
      refine ⟨hend, ?_⟩
      show (s.moved w).position < (s.moved w).capacity
      omega
    · rw [h₁.read_eq hpos] at hread
      split_ifs at hread with hshort
      obtain ⟨rfl, -⟩ := Outcome.returns.inj hread
      exact ⟨Nat.le_of_not_lt hshort, (fits_iff_moved hpos).mpr (by omega)⟩
  · intro hor
    obtain ⟨hw', hmax, hsize, hfits⟩ := hor.resolve_left hthrows
    have h₁ := h.moved (by omega) hw'
    obtain ⟨t, hread, ht⟩ := h₁.read_of_fits (n := s.wordAt P w) (by rw [hw']; exact hsize)
      (by rw [hw']; exact hfits)
    refine .inl ⟨t, slice (s.moved w).content (s.moved w).position (s.wordAt P w), _, ?_, rfl, ?_⟩
    · rw [h.readWord_eq hw, if_neg hthrows]
      show (s.moved w).readStringOf P (s.wordAt P w) = _
      rw [readStringOf, if_neg (by omega), hread]
      rfl
    · rw [ht.position, hw']
      omega

/-! ### Strings with a variable-length number in front -/

theorem byteswap_word (e e' : Endian) (bs : List UInt8) (hne : e ≠ e') :
    byteswap bs.length (word e' bs) = word e bs := by
  have hswap (bs : List UInt8) : byteswap bs.length (ofLittleEndian bs) =
      ofLittleEndian bs.reverse := by
    rw [byteswap, littleEndian_ofLittleEndian]
  cases e with
  | little =>
    cases e' with
    | little => exact absurd rfl hne
    | big =>
      have h := hswap bs.reverse
      rwa [List.length_reverse, List.reverse_reverse] at h
  | big =>
    cases e' with
    | little => exact hswap bs
    | big => exact absurd rfl hne

/-- The word that is read is in the order of the `ByteArray`, whatever the platform. -/
theorem Wellformed.wordAt_eq (h : s.Wellformed) (hsize : s.position + w ≤ s.size) :
    s.wordAt P w = word s.endian (slice s.content s.position w) := by
  have hcapacity := h.size
  have hlength : (slice s.content s.position w).length = w :=
    length_slice (by rw [h.length_content]; omega)
  unfold wordAt
  split_ifs with hsame
  · rw [hsame]
  · have hswap := byteswap_word s.endian P.byteOrder (slice s.content s.position w) hsame
    rwa [hlength] at hswap

theorem ofText_le (bs : List UInt8) : ofText bs ≤ ofLittleEndian bs := by
  induction bs with
  | nil => exact le_rfl
  | cons b bs ih =>
    rw [ofText, ofLittleEndian]
    omega

theorem ofText_lt {b : UInt8} (hb : 128 ≤ b.toNat) (bs : List UInt8) :
    ofText (b :: bs) < ofLittleEndian (b :: bs) := by
  have hle := ofText_le bs
  rw [ofText, ofLittleEndian]
  omega

theorem ofLittleEndian_take_le (bs : List UInt8) (k : ℕ) :
    ofLittleEndian (bs.take k) ≤ ofLittleEndian bs := by
  have happend := ofLittleEndian_append (bs.take k) (bs.drop k)
  rw [List.take_append_drop] at happend
  omega

/-- The first of the bytes is the highest one of a big word. -/
theorem mul_pow_le_word_big {b : UInt8} {bs : List UInt8} (hlength : 8 ≤ (b :: bs).length) :
    b.toNat * 256 ^ 7 ≤ word .big ((b :: bs).take 8) := by
  have htake : ((b :: bs).take 8).length = 8 := List.length_take_of_le hlength
  have hlast : ((b :: bs).take 8).reverse[7]? = some b := by
    rw [List.getElem?_reverse (by omega), htake]
    rfl
  exact mul_pow_le_ofLittleEndian hlast

theorem le_word {e : Endian} {b : UInt8} {bs : List UInt8} (hlength : 8 ≤ (b :: bs).length) :
    b.toNat ≤ word e ((b :: bs).take 8) := by
  cases e with
  | little =>
    have hfirst : ((b :: bs).take 8)[0]? = some b := rfl
    have hle := mul_pow_le_ofLittleEndian hfirst
    rwa [Nat.pow_zero, Nat.mul_one] at hle
  | big =>
    have hle := mul_pow_le_word_big hlength
    omega

/-- A word of eight bytes that a string can be as long as is never by accident the number of bytes
that the same bytes stand for as a text. -/
theorem lt_of_textLength {e : Endian} {bs : List UInt8} {k : ℕ} (hlength : 8 ≤ bs.length)
    (hmax : word e (bs.take 8) < 2 ^ 63) (hk : textLength 10 bs = some k) :
    k + ofText (bs.take k) < 8 + word e (bs.take 8) := by
  obtain ⟨b, bs, rfl⟩ := List.exists_cons_of_length_pos (show 0 < bs.length by omega)
  have hpos := textLength_pos (by norm_num) hk
  rcases Nat.lt_or_ge 1 k with hmany | hone
  · obtain ⟨b', hb', hhigh⟩ := high_of_textLength (i := 0) hk hmany
    obtain rfl := Option.some.inj hb'
    cases e with
    | big =>
      -- a first byte with its high bit set makes the word too large
      have hle := mul_pow_le_word_big hlength
      omega
    | little =>
      replace hmax : ofLittleEndian ((b :: bs).take 8) < 2 ^ 63 := hmax
      show _ < 8 + ofLittleEndian ((b :: bs).take 8)
      have hk8 : k ≤ 8 := by
        -- otherwise the eighth byte has its high bit set, too
        by_contra hgt
        obtain ⟨c, hc, hchigh⟩ := high_of_textLength (i := 7) hk (by omega)
        have hseventh : ((b :: bs).take 8)[7]? = some c := by
          rw [List.getElem?_take, if_pos (by norm_num)]
          exact hc
        have hle := mul_pow_le_ofLittleEndian hseventh
        omega
      have hprefix := ofLittleEndian_take_le ((b :: bs).take 8) k
      rw [List.take_take, Nat.min_eq_left hk8] at hprefix
      obtain ⟨k, rfl⟩ : ∃ m, k = m + 1 := ⟨k - 1, by omega⟩
      have hlt := ofText_lt hhigh (bs.take k)
      rw [List.take_succ_cons] at hprefix ⊢
      omega
  · obtain rfl : k = 1 := by omega
    have htext : ofText ((b :: bs).take 1) = b.toNat % 128 := by
      show b.toNat % 128 + 128 * 0 = _
      omega
    have hle := @le_word e b bs hlength
    rw [htext]
    omega

theorem Wellformed.retries_vint (h : s.Wellformed) (hmax : P.maxSize < 2 ^ 63) :
    Retries s (s.stringLengthAt P .vint) ((s.readWord P 8).bind fun t v => t.readStringOf P v) ↔
      s.size < s.position + 8 := by
  constructor
  · intro hretries
    by_contra hthere
    have hsize : s.position + 8 ≤ s.size := by omega
    obtain ⟨t, a, n, -, hlen, hn, hposition, hle⟩ :=
      h.retries_readStringOf (by norm_num) hsize hretries
    obtain ⟨k, hk, rfl⟩ := Option.map_eq_some_iff.mp hn
    have hmoved := le_moved s 8
    -- the eight bytes are taken for a word, and they are part of a text
    have hword := h.wordAt_eq (P := P) hsize
    have height : s.readable.take 8 = slice s.content s.position 8 := by
      rw [readable, slice, slice, List.take_take, Nat.min_eq_left (by omega)]
    rw [← height] at hword
    have hlt := lt_of_textLength (e := s.endian) (by rw [h.length_readable]; omega)
      (by omega) hk
    have hmod := Nat.mod_le (ofText (s.readable.take k)) (2 ^ 64)
    omega
  · intro hthrows
    rw [h.readWord_eq (by norm_num), if_pos hthrows]
    exact .inr ⟨s, rfl, rfl, rfl, rfl⟩

theorem Wellformed.retries_string_iff (h : s.Wellformed) (hmax : P.maxSize < 2 ^ 63)
    (framing : Framing) :
    Retries s (s.stringLengthAt P framing) (s.readString P framing) ↔
      s.StringArrived P framing := by
  rw [readString_eq]
  cases framing with
  | f16 => exact h.retries_string (by norm_num)
  | f32 => exact h.retries_string (by norm_num)
  | f64 => exact h.retries_string (by norm_num)
  | vint => exact h.retries_vint hmax

/-! ### All typed reads -/

/-- For every state and every type. -/
theorem retries_iff_arrived (hmax : P.maxSize < 2 ^ 63) (h : s.Wellformed) :
    (∀ kind, Retries s (s.lengthAt kind) ((s.readTyped P kind).map .ok) ↔
      s.ValueArrived kind) ∧
    ∀ framing, Retries s (s.stringLengthAt P framing) (s.readString P framing) ↔
      s.StringArrived P framing :=
  ⟨h.retries_value_iff, h.retries_string_iff hmax⟩

/-- A string of two bytes behind its length, of which one has not arrived. -/
theorem retries_iff_arrived_two :
    2 ^ 62 < 2 ^ 63 ∧ ∃ s, Transition.run (edited fun _ _ => 0) (init (fun _ _ => 0) 4)
        [.write [0, 2, 5], .setPosition 0] = some s ∧ s.Wellformed ∧
      (∀ kind, Retries s (s.lengthAt kind)
          ((s.readTyped ⟨fun _ _ => 0, .little, 2 ^ 62⟩ kind).map .ok) ↔ s.ValueArrived kind) ∧
      ∀ framing, Retries s (s.stringLengthAt ⟨fun _ _ => 0, .little, 2 ^ 62⟩ framing)
          (s.readString ⟨fun _ _ => 0, .little, 2 ^ 62⟩ framing) ↔
        s.StringArrived ⟨fun _ _ => 0, .little, 2 ^ 62⟩ framing := by
  obtain ⟨s, hrun, hs⟩ := (refines_init (fun _ _ => 0) (show 1 ≤ 4 by decide)).edits (fun _ _ => 0)
    [.write [0, 2, 5], .setPosition 0]
  exact ⟨by decide, s, hrun, hs.wellformed, retries_iff_arrived (by decide) hs.wellformed⟩

/-- The first byte of a number of two bytes: it is consumed, and then there is nothing more. -/
theorem not_retries_first_byte :
    ∃ s, Transition.run (edited fun _ _ => 0) (init (fun _ _ => 0) 4)
        [.write [0x80], .setPosition 0] = some s ∧
      ¬Retries s (s.lengthAt .uint32)
        ((s.readTyped ⟨fun _ _ => 0, .little, 2 ^ 62⟩ .uint32).map .ok) := by
  refine ⟨_, rfl, ?_⟩
  rintro (⟨t, a, n, ho, -⟩ | ⟨t, ho, hposition, -⟩)
  · cases ho
  · obtain rfl := Outcome.throws.inj ho
    exact absurd hposition (by decide)

end Muhui.ByteArray
