/-
  Whole runs of the public functions of `ByteArray`.

  `Wellformed` holds initially, and every function keeps it, whether it returns or throws, as long
  as no read leaves the block in whose middle it begins, or reads nothing at the end of the
  capacity (`Safe`).  Then no null pointer is followed, and no memory outside of a node is touched
  (`safeRun_of_stepsMeet`).
-/
import Muhui.ByteArray.File
import Muhui.ByteArray.Typed
import Muhui.Transition.Run

namespace Muhui.ByteArray

/-! ### Calls -/

/-- How the length of a string is written. -/
inductive Framing
  | f16 | f32 | f64 | vint
  deriving DecidableEq

/-- The public functions that use the memory or move the cursor. -/
inductive Op
  | setIsLittleEndian (val : Bool)
  | write (buf : List UInt8)
  | writeTyped (value : Typed)
  | writeString (framing : Framing) (value : List UInt8)
  | writeStringWithoutLength (value : List UInt8)
  | read (size : ℕ)
  | readTyped (kind : Kind)
  | readString (framing : Framing)
  | readAt (size position : ℕ)
  | toString
  | setPosition (v : ℕ)
  | clear
  | getReadBuffers (len : ℕ)
  | getReadBuffersAt (len position : ℕ)
  | getWriteBuffers (len : ℕ)
  | writeToFile (opened : Bool)
  | readFromFile (contents : Option (List UInt8))
  deriving DecidableEq

variable (P : Platform)

def writeString (s : ByteArray) (value : List UInt8) : Framing → Outcome Unit
  | .f16 => s.writeStringF16 P value
  | .f32 => s.writeStringF32 P value
  | .f64 => s.writeStringF64 P value
  | .vint => s.writeStringVint P value

def readString (s : ByteArray) : Framing → Outcome (Except LengthError (List UInt8))
  | .f16 => s.readStringF16 P
  | .f32 => s.readStringF32 P
  | .f64 => s.readStringF64 P
  | .vint => s.readStringVint P

/-- A call, without what it returns. -/
def call (s : ByteArray) : Op → Outcome Unit
  | .setIsLittleEndian val => .returns (s.setIsLittleEndian val) ()
  | .write buf => s.write P.fill buf
  | .writeTyped value => s.writeTyped P value
  | .writeString framing value => s.writeString P value framing
  | .writeStringWithoutLength value => s.writeStringWithoutLength P value
  | .read size => (s.read size).map fun _ => ()
  | .readTyped kind => (s.readTyped P kind).map fun _ => ()
  | .readString framing => (s.readString P framing).map fun _ => ()
  | .readAt size position => (s.readAt size position).map fun _ => ()
  | .toString => s.toString.map fun _ => ()
  | .setPosition v => s.setPosition v
  | .clear => .returns s.clear ()
  | .getReadBuffers len => (s.getReadBuffers len).map fun _ => ()
  | .getReadBuffersAt len position => (s.getReadBuffersAt len position).map fun _ => ()
  | .getWriteBuffers len => (s.getWriteBuffers P.fill len).map fun _ => ()
  | .writeToFile opened => (s.writeToFile opened).map fun _ => ()
  | .readFromFile contents => (s.readFromFile P.fill contents).map fun _ => ()

/-- The state that a call leaves behind, whether it throws or not. -/
def called (s : ByteArray) (op : Op) : Option ByteArray :=
  match s.call P op with
  | .returns t _ => some t
  | .throws t => some t
  | .faults => none

/-! ### Safe calls -/

/-- `n` bytes from position `p` on: there are not as many, or they fit. -/
def Readable (s : ByteArray) (p n : ℕ) : Prop := s.size < p + n ∨ s.Fits p n

instance (s : ByteArray) (p n : ℕ) : Decidable (s.Readable p n) :=
  inferInstanceAs (Decidable (_ ∨ _))

/-- The width of the length in front of a string that is read. -/
def Framing.width : Framing → ℕ
  | .f16 => 2
  | .f32 => 4
  | .f64 => 8
  | .vint => 8

/-- The word of `w` bytes behind the cursor. -/
def wordAt (s : ByteArray) (w : ℕ) : ℕ :=
  let v := word P.byteOrder (slice s.content s.position w)
  if s.endian = P.byteOrder then v else byteswap w v

/-- The calls that keep to the nodes. -/
def Safe (s : ByteArray) : Op → Prop
  | .read size => s.Readable s.position size
  | .readTyped kind =>
    match kind.shape with
    | .word w _ => s.Readable s.position w
    | .varint _ _ => True
  | .readString framing =>
    s.Readable s.position framing.width ∧
      (s.position + framing.width ≤ s.size → s.wordAt P framing.width ≤ P.maxSize →
        s.Readable (s.position + framing.width) (s.wordAt P framing.width))
  | .readAt size position =>
    sub64 s.size position < size ∨ s.position < s.capacity ∧ (size = 0 ∨
      s.baseSize * (s.position / s.baseSize) + position % s.baseSize + size ≤ s.capacity)
  | .getReadBuffersAt len position =>
    min len (s.size - s.position) = 0 ∨ position < s.capacity ∧
      (position % s.baseSize + min len (s.size - s.position) ≤ s.baseSize ∨
        position / s.baseSize + 1 < s.nodes.length)
  | .writeToFile opened =>
    opened = false ∨ s.position = s.size ∨ min s.baseSize (s.size - s.position) < 2 ^ 31 ∧
      (s.position % s.baseSize = 0 ∨ s.baseSize ≤ s.size - s.position)
  | _ => True

instance (s : ByteArray) : (op : Op) → Decidable (Safe P s op)
  | .read size => inferInstanceAs (Decidable (s.Readable s.position size))
  | .readTyped kind =>
    match h : kind.shape with
    | .word w _ => decidable_of_iff (s.Readable s.position w) (by simp only [Safe, h])
    | .varint _ _ => .isTrue (by simp only [Safe, h])
  | .readString framing => inferInstanceAs (Decidable (s.Readable s.position framing.width ∧
      (s.position + framing.width ≤ s.size → s.wordAt P framing.width ≤ P.maxSize →
        s.Readable (s.position + framing.width) (s.wordAt P framing.width))))
  | .readAt _ _ => inferInstanceAs (Decidable (_ ∨ _ ∧ (_ ∨ _)))
  | .getReadBuffersAt _ _ => inferInstanceAs (Decidable (_ ∨ _ ∧ (_ ∨ _)))
  | .writeToFile _ => inferInstanceAs (Decidable (_ ∨ _ ∨ _ ∧ (_ ∨ _)))
  | .setIsLittleEndian _ | .write _ | .writeTyped _ | .writeString _ _
  | .writeStringWithoutLength _ | .toString | .setPosition _ | .clear | .getReadBuffers _
  | .getWriteBuffers _ | .readFromFile _ => .isTrue trivial

/-! ### Sound outcomes -/

/-- A call that does not fault, and leaves a wellformed state. -/
def Outcome.Sound {α : Type} : Outcome α → Prop
  | .returns t _ => t.Wellformed
  | .throws t => t.Wellformed
  | .faults => False

section Sound

variable {P} {s t : ByteArray} {α β : Type} {o : Outcome α}

theorem Outcome.Sound.bind {f : ByteArray → α → Outcome β} (h : o.Sound)
    (hf : ∀ t a, o = .returns t a → (f t a).Sound) : (o.bind f).Sound := by
  cases o with
  | returns t a => exact hf t a rfl
  | throws t => exact h
  | faults => exact h

theorem Outcome.Sound.map {f : α → β} (h : o.Sound) : (o.map f).Sound := by
  cases o with
  | returns t a => exact h
  | throws t => exact h
  | faults => exact h

theorem Wellformed.sound_write (h : s.Wellformed) (buf : List UInt8) :
    (s.write P.fill buf).Sound := by
  obtain ⟨t, hwrite, ht⟩ := h.write P.fill buf
  rw [hwrite]
  exact ht.wellformed

theorem Wellformed.sound_writeTyped (h : s.Wellformed) (value : Typed) :
    (s.writeTyped P value).Sound := by
  rw [writeTyped_eq_write]
  exact h.sound_write _

theorem wellformed_of_returns {a : α} (h : o.Sound) (ho : o = .returns t a) : t.Wellformed := by
  rw [ho] at h
  exact h

/-- The length of a string is a typed value. -/
theorem Wellformed.sound_writeString (h : s.Wellformed) (value : List UInt8) (framing : Framing) :
    (s.writeString P value framing).Sound := by
  have hlength (t : Typed) : ((s.writeTyped P t).bind fun s _ => s.write P.fill value).Sound :=
    (h.sound_writeTyped t).bind fun _ _ ho =>
      (wellformed_of_returns (h.sound_writeTyped t) ho).sound_write value
  cases framing with
  | f16 => exact hlength (.fuint16 (UInt16.ofNat value.length))
  | f32 => exact hlength (.fuint32 (UInt32.ofNat value.length))
  | f64 => exact hlength (.fuint64 (UInt64.ofNat value.length))
  | vint => exact hlength (.uint64 (UInt64.ofNat value.length))

theorem Wellformed.sound_writes (h : s.Wellformed) (bufs : List (List UInt8)) :
    (s.writes P.fill bufs).Sound := by
  induction bufs generalizing s with
  | nil => exact h
  | cons buf bufs ih =>
    exact (h.sound_write buf).bind fun _ _ ho =>
      ih (wellformed_of_returns (h.sound_write (P := P) buf) ho)

/-! ### Reads -/

theorem Wellformed.sound_read (h : s.Wellformed) {n : ℕ} (hn : s.Readable s.position n) :
    (s.read n).Sound := by
  by_cases hthrows : s.size < s.position + n
  · rw [h.read, if_pos hthrows]
    exact h
  · obtain ⟨t, hread, ht⟩ := h.read_of_fits (by omega) (hn.resolve_left hthrows)
    rw [hread]
    exact ht.wellformed

theorem Wellformed.readable_one (h : s.Wellformed) : s.Readable s.position 1 := by
  have hmod := Nat.mod_lt s.position h.base
  refine .inr ?_
  rw [Fits, if_neg Nat.one_ne_zero]
  omega

theorem Wellformed.sound_readLoopVarint (h : s.Wellformed) (bits i result passes : ℕ) :
    (ByteArray.readLoopVarint bits s i result passes).Sound := by
  induction passes generalizing s i result with
  | zero => exact h
  | succ passes ih =>
    have hbyte : s.readFuint8.Sound := (h.sound_read h.readable_one).map
    refine hbyte.bind fun t b ho => ?_
    have ht := wellformed_of_returns hbyte ho
    split_ifs
    · exact ht
    · exact ih ht _ _

theorem Wellformed.sound_readWord (h : s.Wellformed) {w : ℕ} (hw : s.Readable s.position w) :
    (s.readWord P w).Sound :=
  (h.sound_read hw).bind fun _ _ ho => wellformed_of_returns (h.sound_read hw) ho

theorem Wellformed.sound_readTyped (h : s.Wellformed) {kind : Kind}
    (hsafe : Safe P s (.readTyped kind)) : (s.readTyped P kind).Sound := by
  rw [readTyped_eq]
  unfold Safe at hsafe
  cases hshape : kind.shape with
  | word w of =>
    simp only [hshape] at hsafe
    exact (h.sound_readWord hsafe).map
  | varint bits of => exact (h.sound_readLoopVarint bits 0 0 _).map

/-- A word is less than two to the power of its width. -/
theorem lt_of_readWord {w v : ℕ} (hread : s.readWord P w = .returns t v) : v < 256 ^ w := by
  obtain ⟨t', buf, hbuf, ho⟩ := bind_eq_returns.mp hread
  obtain ⟨-, rfl⟩ := Outcome.returns.inj ho
  have hlt := word_lt P.byteOrder buf
  rw [length_of_read hbuf] at hlt
  split_ifs
  · exact hlt
  · exact byteswap_lt w _

/-- The word behind the cursor is what is read. -/
theorem Wellformed.readWord_returns (h : s.Wellformed) {w v : ℕ}
    (hsafe : s.Readable s.position w) (hread : s.readWord P w = .returns t v) :
    v = s.wordAt P w ∧ v < 256 ^ w ∧ s.position + w ≤ s.size ∧
      Becomes s t s.content (s.position + w) s.size := by
  have hlt := lt_of_readWord hread
  obtain ⟨t', buf, hbuf, ho⟩ := bind_eq_returns.mp hread
  obtain ⟨rfl, hv⟩ := Outcome.returns.inj ho
  have hsize : s.position + w ≤ s.size := by
    by_contra hthrows
    rw [h.read, if_pos (by omega)] at hbuf
    cases hbuf
  obtain ⟨t'', hread', ht⟩ := h.read_of_fits hsize (hsafe.resolve_left (by omega))
  obtain ⟨rfl, rfl⟩ := Outcome.returns.inj (hbuf.symm.trans hread')
  rw [ht.endian] at hv
  exact ⟨hv.symm, hlt, hsize, ht⟩

/-- The length that is read is its own conversion. -/
theorem readString_eq (framing : Framing) :
    s.readString P framing =
      (s.readWord P framing.width).bind fun t v => t.readStringOf P v := by
  have hconverted (w : ℕ) (len : ℕ → ℕ) (hlen : ∀ v < 256 ^ w, len v = v) :
      ((s.readWord P w).bind fun t v => t.readStringOf P (len v)) =
        (s.readWord P w).bind fun t v => t.readStringOf P v := by
    cases hread : s.readWord P w with
    | returns t v =>
      show t.readStringOf P (len v) = t.readStringOf P v
      rw [hlen v (lt_of_readWord hread)]
    | throws t => rfl
    | faults => rfl
  cases framing with
  | f16 =>
    show ((s.readWord P 2).map UInt16.ofNat).bind _ = _
    rw [map_bind]
    exact hconverted 2 _ fun v hv => UInt16.toNat_ofNat_of_lt' hv
  | f32 =>
    show ((s.readWord P 4).map UInt32.ofNat).bind _ = _
    rw [map_bind]
    exact hconverted 4 _ fun v hv => UInt32.toNat_ofNat_of_lt' hv
  | f64 | vint =>
    show ((s.readWord P 8).map UInt64.ofNat).bind _ = _
    rw [map_bind]
    exact hconverted 8 _ fun v hv => UInt64.toNat_ofNat_of_lt' hv

/-- The bytes are read behind the length, as many as it says. -/
theorem Wellformed.sound_readString (h : s.Wellformed) {framing : Framing}
    (hsafe : Safe P s (.readString framing)) : (s.readString P framing).Sound := by
  obtain ⟨hword, hbytes⟩ := hsafe
  rw [readString_eq]
  refine (h.sound_readWord hword).bind fun t v ho => ?_
  obtain ⟨hv, hlt, hsize, ht⟩ := h.readWord_returns hword ho
  unfold readStringOf
  split_ifs with hmax
  · exact ht.wellformed
  · have hread := hbytes hsize (by rw [← hv]; omega)
    rw [← hv] at hread
    refine (ht.wellformed.sound_read ?_).map
    -- the size and the blocks are still the same
    have hcapacity : t.capacity = s.capacity := by
      rw [← ht.wellformed.length_content, ht.content, h.length_content]
    unfold Readable Fits at hread ⊢
    rwa [ht.position, ht.size, ht.baseSize, hcapacity]

theorem Wellformed.sound_readAt (h : s.Wellformed) {size position : ℕ}
    (hsafe : Safe P s (.readAt size position)) : (s.readAt size position).Sound := by
  rw [readAt_eq h]
  rcases hsafe with hthrows | ⟨hcur, hfits⟩
  · rw [if_pos hthrows]
    exact h
  · split_ifs with hthrows hend
    · exact h
    · omega
    · show (if _ then _ else _ : Outcome (List UInt8)).Sound
      rw [if_pos hfits]
      exact h

/-! ### Buffers and files -/

theorem Wellformed.sound_readVector (h : s.Wellformed) {c npos ncap size : ℕ}
    (hfits : size ≤ ncap ∨ c + 1 < s.nodes.length) : (s.readVector c npos ncap size).Sound := by
  unfold readVector
  split_ifs with hin hnext
  · exact h
  · exact h
  · omega

theorem Wellformed.sound_getReadBuffers (h : s.Wellformed) (len : ℕ) :
    (s.getReadBuffers len).Sound := by
  obtain ⟨iovs, hcall, -⟩ := h.getReadBuffers len
  rw [hcall]
  exact h

theorem Wellformed.sound_getReadBuffersAt (h : s.Wellformed) {len position : ℕ}
    (hsafe : Safe P s (.getReadBuffersAt len position)) :
    (s.getReadBuffersAt len position).Sound := by
  unfold getReadBuffersAt
  rw [getReadSize_eq h, ite_gt_eq_min]
  by_cases hzero : min len (s.size - s.position) = 0
  · rw [if_pos hzero]
    exact h
  · obtain ⟨hposition, hfits⟩ := hsafe.resolve_left hzero
    obtain ⟨block, hblock, hlength, hcur⟩ := h.current (show s.position < s.size by omega)
    obtain ⟨hc, -, hmod, -⟩ := h.node hposition
    rw [if_neg hzero, hcur, Option.bind_some, hblock]
    show (if position / s.baseSize < s.nodes.length then _ else _ : Outcome _).Sound
    rw [if_pos hc, hlength]
    exact h.sound_readVector (by omega)

theorem Wellformed.sound_getWriteBuffers (h : s.Wellformed) (len : ℕ) :
    (s.getWriteBuffers P.fill len).Sound := by
  rcases Nat.eq_zero_or_pos len with rfl | hpos
  · exact h
  · obtain ⟨iovs, hcall, -, -⟩ := h.getWriteBuffers P.fill hpos
    rw [hcall]
    exact (h.addCapacity P.fill len).1

theorem Wellformed.sound_writeToFile (h : s.Wellformed) {opened : Bool}
    (hsafe : Safe P s (.writeToFile opened)) : (s.writeToFile opened).Sound := by
  cases opened with
  | false => exact h
  | true =>
    have hsafe' := hsafe.resolve_left Bool.true_eq_false.mp
    -- the loop ends before the list of the nodes does
    obtain ⟨chunks, hwrite, -, -⟩ := h.writeToFile (by unfold Chunked; omega) (by omega)
    rw [hwrite]
    exact h

/-! ### Runs -/

/-- **Step lemma.** -/
theorem Wellformed.sound_call (h : s.Wellformed) {op : Op} (hsafe : Safe P s op) :
    (s.call P op).Sound := by
  cases op with
  | setIsLittleEndian val =>
    exact ⟨h.base, h.uniform, h.root, h.capacity, h.size, h.position, h.cur⟩
  | write buf => exact h.sound_write buf
  | writeTyped value => exact h.sound_writeTyped value
  | writeString framing value => exact h.sound_writeString value framing
  | writeStringWithoutLength value => exact h.sound_write value
  | read size => exact (h.sound_read hsafe).map
  | readTyped kind => exact (h.sound_readTyped hsafe).map
  | readString framing => exact (h.sound_readString hsafe).map
  | readAt size position => exact (h.sound_readAt hsafe).map
  | toString =>
    show (s.toString.map fun _ => ()).Sound
    rw [toString_eq h]
    exact h
  | setPosition v =>
    show (s.setPosition v).Sound
    rcases Nat.lt_or_ge s.capacity v with hlt | hge
    · rw [setPosition_of_lt hlt]
      exact h
    · obtain ⟨t, hset, ht⟩ := h.setPosition hge
      rw [hset]
      exact ht.wellformed
  | clear => exact h.clear.wellformed
  | getReadBuffers len => exact (h.sound_getReadBuffers len).map
  | getReadBuffersAt len position => exact (h.sound_getReadBuffersAt hsafe).map
  | getWriteBuffers len => exact (h.sound_getWriteBuffers len).map
  | writeToFile opened => exact (h.sound_writeToFile hsafe).map
  | readFromFile contents =>
    cases contents with
    | none => exact h
    | some contents => exact (h.sound_writes (P := P) _).map.map

theorem Wellformed.called (h : s.Wellformed) {op : Op} (hsafe : Safe P s op) :
    ∃ t, s.called P op = some t ∧ t.Wellformed := by
  have hsound := h.sound_call hsafe
  unfold ByteArray.called
  cases hcall : s.call P op with
  | returns t u =>
    rw [hcall] at hsound
    exact ⟨t, rfl, hsound⟩
  | throws t =>
    rw [hcall] at hsound
    exact ⟨t, rfl, hsound⟩
  | faults =>
    rw [hcall] at hsound
    exact hsound.elim

end Sound

/-- After every prefix of the calls the state is wellformed, and no call has faulted. -/
def SafeRun (base_size : ℕ) (ops : List Op) : Prop :=
  ∀ pre, pre <+: ops →
    ∃ s, Transition.run (called P) (init P.fill base_size) pre = some s ∧ s.Wellformed

theorem run_of_stepsMeet {s : ByteArray} (h : s.Wellformed) {ops : List Op}
    (hops : Transition.StepsMeet (called P) (Safe P) s ops) :
    ∃ t, Transition.run (called P) s ops = some t ∧ t.Wellformed := by
  induction ops generalizing s with
  | nil => exact ⟨s, rfl, h⟩
  | cons op ops ih =>
    obtain ⟨s₁, hcalled, h₁⟩ := h.called hops.1
    obtain ⟨t, hrun, ht⟩ := ih h₁ (hops.2 s₁ hcalled)
    exact ⟨t, Transition.run_cons_eq_some.mpr ⟨s₁, hcalled, hrun⟩, ht⟩

/-- For every block size, and every run of safe calls. -/
theorem safeRun_of_stepsMeet {base_size : ℕ} (hb : 1 ≤ base_size) {ops : List Op}
    (hops : Transition.StepsMeet (called P) (Safe P) (init P.fill base_size) ops) :
    SafeRun P base_size ops := by
  rintro pre ⟨post, rfl⟩
  exact run_of_stepsMeet P (wellformed_init P.fill hb) hops.of_append

/-- A word that fills up the second block, a string with its length, and a read that throws. -/
theorem safeRun_of_blocks :
    (1 ≤ 2 ∧ Transition.StepsMeet (called ⟨fun _ _ => 0, .little, 2 ^ 63⟩)
      (Safe ⟨fun _ _ => 0, .little, 2 ^ 63⟩) (init (fun _ _ => 0) 2)
      [.writeTyped (.fint16 3), .writeStringWithoutLength [5], .setPosition 0,
        .readTyped .fint16, .read 2, .getWriteBuffers 4]) ∧
    SafeRun ⟨fun _ _ => 0, .little, 2 ^ 63⟩ 2
      [.writeTyped (.fint16 3), .writeStringWithoutLength [5], .setPosition 0,
        .readTyped .fint16, .read 2, .getWriteBuffers 4] := by
  have hsafe : 1 ≤ 2 ∧ Transition.StepsMeet (called ⟨fun _ _ => 0, .little, 2 ^ 63⟩)
      (Safe ⟨fun _ _ => 0, .little, 2 ^ 63⟩) (init (fun _ _ => 0) 2)
      [.writeTyped (.fint16 3), .writeStringWithoutLength [5], .setPosition 0,
        .readTyped .fint16, .read 2, .getWriteBuffers 4] := by
    decide
  exact ⟨hsafe, safeRun_of_stepsMeet _ hsafe.1 hsafe.2⟩

/-- The empty string: its length fills the only block, and behind it there is no node. -/
theorem not_safeRun_empty :
    ¬SafeRun ⟨fun _ _ => 0, .little, 2 ^ 63⟩ 2
      [.writeString .f16 [], .setPosition 0, .readString .f16] := by
  intro h
  obtain ⟨s, hrun, -⟩ := h _ List.prefix_rfl
  cases hrun

end Muhui.ByteArray
