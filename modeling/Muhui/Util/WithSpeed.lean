/-
  `WriteFixToStreamWithSpeed` (`util.cc`, `util.h`).

  The data are written in chunks, and before each of them the stream is tested.  Behind the last one
  it is not, so the function returns whether every chunk has been offered: whether every byte has
  been accepted is known of all chunks but the last (`loop_truthful_iff`).
-/
import Mathlib.Algebra.Ring.Nat
import Mathlib.Data.List.Basic
import Mathlib.Order.MinMax

namespace Muhui.WithSpeed

/-- What a call of `os.write` comes to: how many of the bytes offered the stream accepts, and
whether it is good behind the call. -/
structure Outcome where
  accepted : ℕ
  good : Bool
  deriving DecidableEq

/-- An output stream: whether it is good at the beginning, and what its `i`th call comes to. A
stream that is good behind a call has accepted all of the bytes. -/
structure OStream where
  good : Bool
  write : ℕ → List UInt8 → Outcome
  le : ∀ i bytes, (write i bytes).accepted ≤ bytes.length
  whole : ∀ i bytes, (write i bytes).good = true → (write i bytes).accepted = bytes.length

/-- The stream, with the bytes that it has been offered and those that it has accepted, and what has
been added to the `SpeedLimit`, a `uint32_t` each time. -/
structure Writing where
  good : Bool
  calls : ℕ
  offered : List UInt8
  accepted : List UInt8
  limit : Option (List ℕ)

def Writing.start (os : OStream) (file : Bool) : Writing where
  good := os.good
  calls := 0
  offered := []
  accepted := []
  limit := if file then some [] else none

/-- `os.write(data + offset, s)` and `limit->add(s)`, if there is a `limit`. -/
def Writing.write (os : OStream) (bytes : List UInt8) (w : Writing) : Writing where
  good := (os.write w.calls bytes).good
  calls := w.calls + 1
  offered := w.offered ++ bytes
  accepted := w.accepted ++ bytes.take (os.write w.calls bytes).accepted
  limit := w.limit.map fun added => added ++ [bytes.length % 2 ^ 32]

/-- `std::max((uint64_t)ceil(speed / 100.0), (uint64_t)1024 * 64)` -/
def per (speed : UInt64) : ℕ := max (speed.toFloat / 100.0).ceil.toUInt64.toNat (1024 * 64)

theorem per_pos (speed : UInt64) : 0 < per speed :=
  lt_of_lt_of_le (by decide) (le_max_right _ _)

/-- The loop; the offset that it ends with, and the stream. No offset is beyond the size. -/
def loop (os : OStream) (data : List UInt8) (speed : UInt64) (offset : ℕ) (w : Writing) :
    ℕ × Writing :=
  if w.good = true ∧ offset < data.length then
    let s := if data.length - offset > per speed then per speed else data.length - offset
    loop os data speed (offset + s) (w.write os ((data.drop offset).take s))
  else (offset, w)
termination_by data.length - offset
decreasing_by
  have := per_pos speed
  split_ifs
  · omega
  · omega

/-- `WriteFixToStreamWithSpeed(os, data, size, speed)`; `file` says that the stream is a
`std::ofstream`. -/
def writeFixToStreamWithSpeed (os : OStream) (file : Bool) (data : List UInt8) (speed : UInt64) :
    Bool × Writing :=
  let r := loop os data speed 0 (.start os file)
  (r.1 == data.length, r.2)

/-- `WriteToStreamWithSpeed(os, v, speed)` for the bytes of `v`. -/
def writeToStreamWithSpeed (os : OStream) (file : Bool) (data : List UInt8) (speed : UInt64) :
    Bool × Writing :=
  if os.good then writeFixToStreamWithSpeed os file data speed else (false, .start os file)

/-! ### The promise -/

/-- What the result `r` is to say of the bytes offered and accepted: the stream has been offered a
first part of the data, each byte once and in order, and `r` is whether it has accepted them all. -/
structure Truthful (data : List UInt8) (r : Bool) (w : Writing) : Prop where
  inOrder : w.offered <+: data
  complete : r = true ↔ w.accepted = data

section Chunks

variable (os : OStream) (data : List UInt8) (speed : UInt64)

/-- What the `i`th call offers. -/
def chunk (i : ℕ) : List UInt8 := (data.drop (i * per speed)).take (per speed)

/-- The stream is good behind the calls before the `i`th one. -/
def Reaches (i : ℕ) : Prop :=
  os.good = true ∧ ∀ j < i, (os.write j (chunk data speed j)).good = true

/-- The `i`th call offers the last bytes. -/
def Last (i : ℕ) : Prop := i * per speed < data.length ∧ data.length ≤ (i + 1) * per speed

/-- If the stream is good up to the call that offers the last bytes, it accepts them all. -/
def LastTaken : Prop :=
  ∀ i, Last data speed i → Reaches os data speed i →
    (os.write i (chunk data speed i)).accepted = (chunk data speed i).length

end Chunks

/-! ### The loop -/

variable {os : OStream} {data : List UInt8} {speed : UInt64} {i offset : ℕ} {w : Writing}

theorem loop_stop (h : ¬ (w.good = true ∧ offset < data.length)) :
    loop os data speed offset w = (offset, w) := by
  rw [loop, if_neg h]

/-- A pass of the loop: the `i`th call. -/
theorem loop_next (hgood : w.good = true) (hlt : i * per speed < data.length) :
    loop os data speed (i * per speed) w =
      loop os data speed (min ((i + 1) * per speed) data.length)
        (w.write os (chunk data speed i)) := by
  rw [loop, if_pos ⟨hgood, hlt⟩]
  have hnext : (i + 1) * per speed = i * per speed + per speed := Nat.succ_mul _ _
  simp only
  split_ifs with hs
  · rw [hnext, min_eq_left (by omega)]
    rfl
  · have hchunk : (data.drop (i * per speed)).take (data.length - i * per speed) =
        chunk data speed i := by
      rw [chunk, List.take_of_length_le (by rw [List.length_drop]),
        List.take_of_length_le (by rw [List.length_drop]; omega)]
    rw [hchunk, hnext, min_eq_right (by omega), Nat.add_sub_cancel' hlt.le]

theorem length_chunk (hlt : i * per speed < data.length) :
    i * per speed + (chunk data speed i).length = min ((i + 1) * per speed) data.length := by
  rw [chunk, List.length_take, List.length_drop, Nat.succ_mul]
  omega

theorem take_succ (i : ℕ) :
    data.take ((i + 1) * per speed) = data.take (i * per speed) ++ chunk data speed i := by
  rw [chunk, Nat.succ_mul, List.take_add]

theorem last_unique {j : ℕ} (hi : Last data speed i) (hj : Last data speed j) : i = j := by
  have hij : i < j + 1 := Nat.lt_of_mul_lt_mul_right (hi.1.trans_le hj.2)
  have hji : j < i + 1 := Nat.lt_of_mul_lt_mul_right (hj.1.trans_le hi.2)
  omega

/-- The stream behind `i` calls that leave it good. -/
structure At (os : OStream) (data : List UInt8) (speed : UInt64) (i : ℕ) (w : Writing) : Prop where
  good : w.good = true
  calls : w.calls = i
  offered : w.offered = data.take (i * per speed)
  accepted : w.accepted = data.take (i * per speed)
  reaches : Reaches os data speed i

theorem At.write (h : At os data speed i w)
    (hgood : (os.write i (chunk data speed i)).good = true) :
    At os data speed (i + 1) (w.write os (chunk data speed i)) := by
  have hwhole := os.whole i (chunk data speed i) hgood
  unfold Writing.write
  rw [h.calls, h.offered, h.accepted, hwhole, List.take_length, ← take_succ]
  refine ⟨hgood, rfl, rfl, rfl, h.reaches.1, ?_⟩
  intro j hj
  rcases Nat.lt_succ_iff_lt_or_eq.mp hj with hj | rfl
  · exact h.reaches.2 j hj
  · exact hgood

/-- All chunks have been accepted. -/
theorem At.truthful (h : At os data speed i w) (hle : data.length ≤ i * per speed) :
    Truthful data true w ∧ LastTaken os data speed := by
  constructor
  · constructor
    · rw [h.offered]
      exact List.take_prefix _ _
    · rw [h.accepted, List.take_of_length_le hle]
      exact iff_of_true rfl rfl
  · intro l hlast _
    have hl : l < i := Nat.lt_of_mul_lt_mul_right (hlast.1.trans_le hle)
    exact os.whole l _ (h.reaches.2 l hl)

/-- The `i`th call leaves a stream that is not good. -/
theorem At.fails (h : At os data speed i w) (hlt : i * per speed < data.length)
    (hbad : ¬ (os.write i (chunk data speed i)).good = true) :
    Truthful data (decide (data.length ≤ (i + 1) * per speed))
        (w.write os (chunk data speed i)) ↔
      LastTaken os data speed := by
  have hoffered : (w.write os (chunk data speed i)).offered <+: data := by
    show w.offered ++ chunk data speed i <+: data
    rw [h.offered, ← take_succ]
    exact List.take_prefix _ _
  have haccepted : (w.write os (chunk data speed i)).accepted = data.take (i * per speed) ++
      (chunk data speed i).take (os.write i (chunk data speed i)).accepted := by
    rw [Writing.write, h.calls, h.accepted]
  have hle := os.le i (chunk data speed i)
  have hlength := length_chunk hlt
  by_cases hlast : data.length ≤ (i + 1) * per speed
  · -- the last call: `true` is returned whatever it has accepted
    have hwhole : (w.write os (chunk data speed i)).accepted = data ↔
        (os.write i (chunk data speed i)).accepted = (chunk data speed i).length := by
      rw [haccepted]
      constructor
      · intro heq
        have := congrArg List.length heq
        rw [List.length_append, List.length_take, List.length_take] at this
        omega
      · intro heq
        rw [heq, List.take_length, ← take_succ, List.take_of_length_le hlast]
    constructor
    · intro htruthful l hl _
      obtain rfl := last_unique ⟨hlt, hlast⟩ hl
      exact hwhole.mp (htruthful.complete.mp (decide_eq_true hlast))
    · intro htaken
      refine ⟨hoffered, iff_of_true (decide_eq_true hlast) ?_⟩
      exact hwhole.mpr (htaken i ⟨hlt, hlast⟩ h.reaches)
  · -- bytes that have not been offered are left, and `false` is returned
    have hshort : (w.write os (chunk data speed i)).accepted ≠ data := by
      intro heq
      have := congrArg List.length (haccepted.symm.trans heq)
      rw [List.length_append, List.length_take, List.length_take] at this
      omega
    apply iff_of_true
    · exact ⟨hoffered, iff_of_false (by rw [decide_eq_true_iff]; exact hlast) hshort⟩
    · intro l hl hreaches
      have hil : i + 1 < l + 1 := Nat.lt_of_mul_lt_mul_right ((not_le.mp hlast).trans_le hl.2)
      exact absurd (hreaches.2 i (by omega)) hbad

theorem At.loop_truthful_iff (h : At os data speed i w) :
    Truthful data ((loop os data speed (min (i * per speed) data.length) w).1 == data.length)
        (loop os data speed (min (i * per speed) data.length) w).2 ↔
      LastTaken os data speed := by
  induction hd : data.length - i * per speed using Nat.strong_induction_on
    generalizing i w with
  | _ d ih =>
    by_cases hlt : i * per speed < data.length
    · rw [min_eq_left hlt.le, loop_next h.good hlt]
      by_cases hgood : (os.write i (chunk data speed i)).good = true
      · have hpos := per_pos speed
        refine ih (data.length - (i + 1) * per speed) ?_ (h.write hgood) rfl
        rw [Nat.succ_mul]
        omega
      · have hbad : ¬ ((w.write os (chunk data speed i)).good = true ∧
            min ((i + 1) * per speed) data.length < data.length) := by
          intro hand
          apply hgood
          rw [← hand.1, Writing.write, h.calls]
        rw [loop_stop hbad, ← h.fails hlt hgood]
        have hdecide : (min ((i + 1) * per speed) data.length == data.length) =
            decide (data.length ≤ (i + 1) * per speed) := by
          rw [Bool.eq_iff_iff, beq_iff_eq, decide_eq_true_iff]
          omega
        rw [hdecide]
    · rw [min_eq_right (not_lt.mp hlt), loop_stop fun hand => lt_irrefl _ hand.2]
      have htruthful := h.truthful (not_lt.mp hlt)
      simp only [beq_self_eq_true]
      exact iff_of_true htruthful.1 htruthful.2

/-! ### The functions -/

theorem withSpeed_truthful_iff (os : OStream) (file : Bool) (data : List UInt8)
    (speed : UInt64) :
    Truthful data (writeFixToStreamWithSpeed os file data speed).1
        (writeFixToStreamWithSpeed os file data speed).2 ↔
      LastTaken os data speed := by
  unfold writeFixToStreamWithSpeed
  by_cases hgood : os.good = true
  · have hat : At os data speed 0 (.start os file) := by
      refine ⟨hgood, rfl, ?_, ?_, hgood, fun j hj => absurd hj (Nat.not_lt_zero j)⟩
      · rw [Nat.zero_mul]
        rfl
      · rw [Nat.zero_mul]
        rfl
    have hloop := hat.loop_truthful_iff
    rw [Nat.zero_mul, Nat.zero_min] at hloop
    exact hloop
  · -- nothing is written
    rw [loop_stop fun hand => hgood hand.1]
    apply iff_of_true
    · refine ⟨List.nil_prefix, ?_⟩
      rw [beq_iff_eq, eq_comm, List.length_eq_zero_iff, eq_comm]
      rfl
    · intro l _ hreaches
      exact absurd hreaches.1 hgood

/-- The template does not write to a stream that is not good, and returns `false` then, although of
no bytes all have been accepted. -/
theorem template_truthful_iff (os : OStream) (file : Bool) (data : List UInt8) (speed : UInt64) :
    Truthful data (writeToStreamWithSpeed os file data speed).1
        (writeToStreamWithSpeed os file data speed).2 ↔
      LastTaken os data speed ∧ (os.good = true ∨ data ≠ []) := by
  unfold writeToStreamWithSpeed
  split_ifs with hgood
  · rw [withSpeed_truthful_iff]
    exact (and_iff_left (.inl hgood)).symm
  · have htaken : LastTaken os data speed := fun l _ hreaches => absurd hreaches.1 hgood
    rw [and_iff_right htaken, or_iff_right hgood]
    constructor
    · intro htruthful hnil
      exact absurd (htruthful.complete.mpr hnil.symm) Bool.false_ne_true
    · intro hdata
      exact ⟨List.nil_prefix, iff_of_false Bool.false_ne_true hdata.symm⟩

/-- **Speed.** The result says whether the stream has accepted every byte, offered once and in
order, exactly when the call that offers the last bytes, if the stream is good up to it, accepts
them all; of the template, unless there is nothing to write and the stream is not good. -/
theorem speed_truthful_iff (os : OStream) (file : Bool) (data : List UInt8) (speed : UInt64) :
    (Truthful data (writeFixToStreamWithSpeed os file data speed).1
          (writeFixToStreamWithSpeed os file data speed).2 ↔
        LastTaken os data speed) ∧
      (Truthful data (writeToStreamWithSpeed os file data speed).1
          (writeToStreamWithSpeed os file data speed).2 ↔
        LastTaken os data speed ∧ (os.good = true ∨ data ≠ [])) :=
  ⟨withSpeed_truthful_iff os file data speed, template_truthful_iff os file data speed⟩

/-- A stream that is good until it is written to, such as a file on a full disk. -/
def full : OStream where
  good := true
  write _ _ := ⟨0, false⟩
  le _ _ := Nat.zero_le _
  whole _ _ h := absurd h Bool.false_ne_true

/-- The only byte is lost, and `true` is returned. -/
theorem not_truthful_of_full :
    ¬ Truthful [7] (writeFixToStreamWithSpeed full true [7] (-1)).1
      (writeFixToStreamWithSpeed full true [7] (-1)).2 := by
  rw [withSpeed_truthful_iff]
  intro htaken
  have hpos := per_pos (-1)
  have hlast : Last [7] (-1) 0 := by
    constructor
    · simp
    · rw [Nat.zero_add, Nat.one_mul]
      exact hpos
  have hlength := length_chunk hlast.1
  rw [← htaken 0 hlast ⟨rfl, fun j hj => absurd hj (Nat.not_lt_zero j)⟩] at hlength
  have hmin := min_eq_right hlast.2
  rw [hmin] at hlength
  simp [full] at hlength

end Muhui.WithSpeed
