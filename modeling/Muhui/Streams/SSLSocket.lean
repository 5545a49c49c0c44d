/-
  `SSLSocket::send` and `SSLSocket::recv` on an array of buffers (`socket.cc`).

  The buffers stand one behind another, and the bytes that a call has moved are given by their
  positions.  The result of the loop is the number of bytes, but a result of `SSL_write` that is not
  positive is returned as it is, also after other buffers have been moved.  The lengths are cut down
  to an `int`, and so is the sum.
-/
import Muhui.Encoding.Signed
import Mathlib.Algebra.BigOperators.Group.List.Basic
import Mathlib.Algebra.Ring.Nat
import Mathlib.Algebra.Order.BigOperators.Group.List
import Mathlib.Data.List.Induction

namespace Muhui.SSLSocket

/-- An element of the array, with what `SSL_write` or `SSL_read` returns for it if it is called. -/
structure Call where
  iov_len : ℕ
  tmp : ℤ

namespace Call

/-- A positive result is at most the length that is asked for, an `int`. -/
def Valid (c : Call) : Prop := 0 < c.tmp → c.tmp ≤ signed 32 c.iov_len

/-- The loop goes on after the call. -/
def Full (c : Call) : Prop := 0 < c.tmp ∧ c.tmp = signed 32 c.iov_len

instance (c : Call) : Decidable c.Valid := inferInstanceAs (Decidable (_ → _))

instance (c : Call) : Decidable c.Full := inferInstanceAs (Decidable (_ ∧ _))

end Call

/-- The loop, with the position of its next buffer: what it returns, and the positions of the bytes
that it moves. -/
def loop (offset : ℕ) (total : ℤ) : List Call → ℤ × List ℕ
  | [] => (total, [])
  | c :: rest =>
    if c.tmp ≤ 0 then (c.tmp, [])
    else
      let total := signed 32 (total + c.tmp)
      let moved := List.range' offset c.tmp.toNat
      if c.tmp ≠ signed 32 c.iov_len then (total, moved)
      else
        let (result, more) := loop (offset + c.iov_len) total rest
        (result, moved ++ more)

/-- `SSLSocket::send(const iovec*, size_t, int)`; `m_ssl` may be null. -/
def send (m_ssl : Bool) (buffers : List Call) : ℤ × List ℕ :=
  if m_ssl then loop 0 0 buffers else (-1, [])

/-- `SSLSocket::recv(iovec*, size_t, int)` -/
def recv (m_ssl : Bool) (buffers : List Call) : ℤ × List ℕ :=
  if m_ssl then loop 0 0 buffers else (-1, [])

/-- A positive result counts the bytes that have been moved, which are the first ones; otherwise
there are none. -/
def Accounts (r : ℤ × List ℕ) : Prop := r.2 = List.range r.1.toNat

instance (r : ℤ × List ℕ) : Decidable (Accounts r) := inferInstanceAs (Decidable (_ = _))

/-- What a call `c` that is made after those of `pre` must meet: only the first one may fail, the
buffers before it are shorter than 2 GiB, and so is what has been moved in all. -/
def Meets (buffers : List Call) : Prop :=
  ∀ pre c post, buffers = pre ++ c :: post → (∀ d ∈ pre, d.Full) →
    (pre ≠ [] → 0 < c.tmp) ∧ (∀ d ∈ pre, d.iov_len < 2 ^ 31) ∧
      (pre.map Call.tmp).sum + c.tmp < 2 ^ 31

/-- The same for the calls that follow on those of `pre`. -/
def MeetsAfter (pre buffers : List Call) : Prop :=
  ∀ mid c post, buffers = mid ++ c :: post → (∀ d ∈ mid, d.Full) →
    (pre ++ mid ≠ [] → 0 < c.tmp) ∧ (∀ d ∈ pre ++ mid, d.iov_len < 2 ^ 31) ∧
      ((pre ++ mid).map Call.tmp).sum + c.tmp < 2 ^ 31

/-! ### The loop -/

variable {pre buffers : List Call} {c : Call} {offset : ℕ} {total : ℤ}

theorem loop_fail (h : c.tmp ≤ 0) : loop offset total (c :: buffers) = (c.tmp, []) := by
  rw [loop, if_pos h]

theorem loop_short (h : 0 < c.tmp) (hshort : ¬ c.Full) :
    loop offset total (c :: buffers) =
      (signed 32 (total + c.tmp), List.range' offset c.tmp.toNat) := by
  rw [loop, if_neg (by omega)]
  exact if_pos fun heq => hshort ⟨h, heq⟩

theorem loop_full (h : c.Full) :
    loop offset total (c :: buffers) =
      ((loop (offset + c.iov_len) (signed 32 (total + c.tmp)) buffers).1,
        List.range' offset c.tmp.toNat ++
          (loop (offset + c.iov_len) (signed 32 (total + c.tmp)) buffers).2) := by
  rw [loop, if_neg (by have := h.1; omega)]
  exact if_neg (not_not.mpr h.2)

/-- A result is an `int`. -/
theorem loop_lt (hvalid : ∀ c ∈ buffers, c.Valid) (htotal : total < 2 ^ 31) :
    (loop offset total buffers).1 < 2 ^ 31 := by
  induction buffers generalizing offset total with
  | nil => exact htotal
  | cons c buffers ih =>
    have hsigned : ∀ x, signed 32 x < 2 ^ 31 := fun x =>
      (@signed_bounds 32 x (by decide)).2
    rw [List.forall_mem_cons] at hvalid
    by_cases hfail : c.tmp ≤ 0
    · rw [loop_fail hfail]
      dsimp only
      omega
    by_cases hfull : c.Full
    · rw [loop_full hfull]
      exact ih hvalid.2 (hsigned _)
    · rw [loop_short (by omega) hfull]
      exact hsigned _

theorem meetsAfter_cons :
    MeetsAfter pre (c :: buffers) ↔
      ((pre ≠ [] → 0 < c.tmp) ∧ (∀ d ∈ pre, d.iov_len < 2 ^ 31) ∧
        (pre.map Call.tmp).sum + c.tmp < 2 ^ 31) ∧
        (c.Full → MeetsAfter (pre ++ [c]) buffers) := by
  constructor
  · intro h
    refine ⟨?_, fun hfull mid d post heq hmid => ?_⟩
    · have hfirst := h [] c buffers rfl nofun
      rw [List.append_nil] at hfirst
      exact hfirst
    · have hnext := h (c :: mid) d post (by rw [heq, List.cons_append])
        (List.forall_mem_cons.mpr ⟨hfull, hmid⟩)
      rw [List.append_cons] at hnext
      exact hnext
  · rintro ⟨hfirst, hnext⟩ mid d post heq hmid
    cases mid with
    | nil =>
      obtain ⟨rfl, rfl⟩ := List.cons.inj heq
      rw [List.append_nil]
      exact hfirst
    | cons c' mid =>
      obtain ⟨rfl, rfl⟩ := List.cons.inj heq
      rw [List.forall_mem_cons] at hmid
      rw [List.append_cons]
      exact hnext hmid.1 mid d post rfl hmid.2

/-! ### Which calls account for all bytes -/

/-- The bytes of the first call. -/
theorem loop_of_pos (h : 0 < c.tmp) :
    ∃ more, (loop offset total (c :: buffers)).2 = List.range' offset c.tmp.toNat ++ more := by
  by_cases hfull : c.Full
  · rw [loop_full hfull]
    exact ⟨_, rfl⟩
  · rw [loop_short h hfull]
    exact ⟨[], (List.append_nil _).symm⟩

theorem eq_length_of_append_cons {as bs : List ℕ} {b k : ℕ} (h : as ++ b :: bs = List.range k) :
    b = as.length := by
  have hget : (as ++ b :: bs)[as.length]? = some b := by
    rw [List.getElem?_append_right le_rfl, Nat.sub_self]
    rfl
  rw [h, List.getElem?_eq_some_iff] at hget
  obtain ⟨_, hb⟩ := hget
  rw [List.getElem_range] at hb
  exact hb.symm

/-- When a buffer has been left in the middle, the next call either fails or leaves a gap. -/
theorem not_accounts_of_gap {as : List ℕ} (has : as ≠ []) (hgap : as.length ≠ offset) :
    as ++ (loop offset total (c :: buffers)).2 ≠
      List.range (loop offset total (c :: buffers)).1.toNat := by
  intro h
  by_cases hfail : c.tmp ≤ 0
  · rw [loop_fail hfail, List.append_nil, Int.toNat_of_nonpos hfail] at h
    exact has h
  · obtain ⟨more, hmore⟩ := @loop_of_pos buffers c offset total (by omega)
    obtain ⟨k, hk⟩ : ∃ k, c.tmp.toNat = k + 1 := ⟨c.tmp.toNat - 1, by omega⟩
    rw [hmore, hk, List.range'_succ, List.cons_append] at h
    exact hgap (eq_length_of_append_cons h).symm

theorem range_append_range' (n k : ℕ) : List.range n ++ List.range' n k = List.range (n + k) := by
  have happend := @List.range'_append_1 0 n k
  rw [Nat.zero_add] at happend
  rw [List.range_eq_range', List.range_eq_range', happend]

section Step

variable {n : ℕ} (hpre : ∀ d ∈ pre, d.iov_len < 2 ^ 31) (hsum : (pre.map Call.tmp).sum = n)
include hpre hsum

/-- A call that fails must be the first one. -/
theorem accounts_loop_iff_of_fail (hempty : pre = [] ↔ n = 0) (hfail : c.tmp ≤ 0) :
    List.range n ++ (loop n n (c :: buffers)).2 = List.range (loop n n (c :: buffers)).1.toNat ↔
      MeetsAfter pre (c :: buffers) := by
  have hnot : ¬ c.Full := fun hfull => by have := hfull.1; omega
  rw [meetsAfter_cons, hsum, loop_fail hfail, List.append_nil, Int.toNat_of_nonpos hfail,
    List.range_zero, List.range_eq_nil]
  constructor
  · intro hzero
    exact ⟨⟨fun hne => absurd (hempty.mpr hzero) hne, hpre, by omega⟩, fun h => absurd h hnot⟩
  · rintro ⟨⟨hpos, -, -⟩, -⟩
    by_contra hne
    have := hpos fun h => hne (hempty.mp h)
    omega

/-- When a buffer is longer than an `int`, its rest is left behind. -/
theorem accounts_loop_iff_of_long (hvalid : c.Valid) (hfull : c.Full)
    (hlen : ¬ c.iov_len < 2 ^ 31) (hover : n + c.tmp < 2 ^ 31) :
    List.range (n + c.tmp.toNat) ++ (loop (n + c.iov_len) (n + c.tmp.toNat : ℕ) buffers).2 =
        List.range (loop (n + c.iov_len) (n + c.tmp.toNat : ℕ) buffers).1.toNat ↔
      MeetsAfter pre (c :: buffers) := by
  have hpos := hfull.1
  rw [meetsAfter_cons, hsum]
  cases buffers with
  | nil =>
    rw [loop, List.append_nil, Int.toNat_natCast]
    refine iff_of_true rfl ⟨⟨fun _ => hpos, hpre, hover⟩, fun _ mid d post heq => ?_⟩
    exact absurd heq.symm (List.append_ne_nil_of_right_ne_nil _ (List.cons_ne_nil _ _))
  | cons c' buffers =>
    refine iff_of_false (not_accounts_of_gap ?_ ?_) fun h => ?_
    · rw [Ne, List.range_eq_nil]
      omega
    · have hle := hvalid hpos
      have hint := (@signed_bounds 32 c.iov_len (by decide)).2
      rw [List.length_range]
      omega
    · have hall := (meetsAfter_cons.mp (h.2 hfull)).1.2.1
      exact hlen (hall c (List.mem_append_right _ (List.mem_singleton_self c)))

end Step

/-- **Loop lemma.** After calls that have moved the first `n` bytes. -/
theorem accounts_loop_iff (hvalid : ∀ c ∈ buffers, c.Valid) {n : ℕ} (hn : n < 2 ^ 31)
    (hpre : ∀ d ∈ pre, d.iov_len < 2 ^ 31) (hsum : (pre.map Call.tmp).sum = n)
    (hempty : pre = [] ↔ n = 0) :
    List.range n ++ (loop n n buffers).2 = List.range (loop n n buffers).1.toNat ↔
      MeetsAfter pre buffers := by
  induction buffers generalizing pre n with
  | nil =>
    refine iff_of_true (List.append_nil _) fun mid c post heq => ?_
    exact absurd heq.symm (List.append_ne_nil_of_right_ne_nil _ (List.cons_ne_nil _ _))
  | cons c buffers ih =>
    have hlt := @loop_lt (c :: buffers) n n hvalid (by omega)
    rw [List.forall_mem_cons] at hvalid
    by_cases hfail : c.tmp ≤ 0
    · exact accounts_loop_iff_of_fail hpre hsum hempty hfail
    have hpos : 0 < c.tmp := by omega
    by_cases hover : (2 : ℤ) ^ 31 ≤ n + c.tmp
    -- more bytes than an `int` can count
    · rw [meetsAfter_cons, hsum]
      refine iff_of_false (fun h => ?_) fun h => by have := h.1.2.2; omega
      obtain ⟨more, hmore⟩ := @loop_of_pos buffers c n n hpos
      have hlength := congrArg List.length h
      rw [hmore, List.length_append, List.length_append, List.length_range, List.length_range,
        List.length_range'] at hlength
      omega
    have hcount : signed 32 (n + c.tmp) = ((n + c.tmp.toNat : ℕ) : ℤ) := by
      rw [(signed_eq_iff (by decide)).mpr ⟨by omega, by omega⟩]
      omega
    by_cases hfull : c.Full
    · rw [loop_full hfull, hcount, ← List.append_assoc, range_append_range']
      by_cases hlen : c.iov_len < 2 ^ 31
      · have htmp : c.iov_len = c.tmp.toNat := by
          have heq := hfull.2
          rw [(signed_eq_iff (by decide)).mpr ⟨by omega, by omega⟩] at heq
          omega
        have hih := @ih (pre ++ [c]) hvalid.2 (n + c.tmp.toNat) (by omega)
          (List.forall_mem_append.mpr ⟨hpre, List.forall_mem_singleton.mpr hlen⟩)
          (by rw [List.map_append, List.sum_append, hsum, List.map_singleton, List.sum_singleton]
              omega)
          (iff_of_false (List.append_ne_nil_of_right_ne_nil _ (List.cons_ne_nil _ _)) (by omega))
        rw [meetsAfter_cons, hsum, htmp, hih]
        exact ⟨fun h => ⟨⟨fun _ => hpos, hpre, by omega⟩, fun _ => h⟩, fun h => h.2 hfull⟩
      · exact accounts_loop_iff_of_long hpre hsum hvalid.1 hfull hlen (by omega)
    · rw [loop_short hpos hfull, hcount, range_append_range', Int.toNat_natCast, meetsAfter_cons,
        hsum]
      exact iff_of_true rfl ⟨⟨fun _ => hpos, hpre, by omega⟩, fun h => absurd h hfull⟩

theorem accounts_loop_iff_meets (hvalid : ∀ c ∈ buffers, c.Valid) :
    Accounts (loop 0 0 buffers) ↔ Meets buffers :=
  @accounts_loop_iff [] buffers hvalid 0 (by decide) nofun rfl (iff_of_true rfl rfl)

theorem accounts_send_iff (m_ssl : Bool) (hvalid : ∀ c ∈ buffers, c.Valid) :
    Accounts (send m_ssl buffers) ↔ m_ssl = false ∨ Meets buffers := by
  cases m_ssl with
  | false => exact iff_of_true rfl (.inl rfl)
  | true => exact (accounts_loop_iff_meets hvalid).trans (or_iff_right nofun).symm

theorem recv_eq_send (m_ssl : Bool) (buffers : List Call) :
    recv m_ssl buffers = send m_ssl buffers := rfl

/-! ### The caller -/

/-- The positions that are moved for a caller that offers what is behind its cursor and advances the
cursor by each positive result. -/
def relay (cursor : ℕ) : List (ℤ × List ℕ) → List ℕ
  | [] => []
  | r :: rest => r.2.map (cursor + ·) ++ relay (cursor + r.1.toNat) rest

/-- When every result accounts for its bytes, nothing is repeated and nothing is lost. -/
theorem relay_eq {rs : List (ℤ × List ℕ)} (h : ∀ r ∈ rs, Accounts r) (cursor : ℕ) :
    relay cursor rs = List.range' cursor (rs.map fun r => r.1.toNat).sum := by
  induction rs generalizing cursor with
  | nil => rfl
  | cons r rs ih =>
    rw [List.forall_mem_cons] at h
    rw [relay, ih h.2, h.1, List.map_cons, List.sum_cons, ← List.range'_append_1,
      List.range_eq_range', List.map_add_range', Nat.add_zero]

/-- The result of `send` and of `recv` accounts for the bytes exactly when there is no `m_ssl` or
the calls meet the condition; and a caller that is only given such results has moved the bytes
behind its cursor, each of them once. -/
theorem accounts_iff (m_ssl : Bool) (hvalid : ∀ c ∈ buffers, c.Valid) :
    (Accounts (send m_ssl buffers) ↔ m_ssl = false ∨ Meets buffers) ∧
      (Accounts (recv m_ssl buffers) ↔ m_ssl = false ∨ Meets buffers) ∧
      ∀ rounds : List (List Call),
        (∀ round ∈ rounds, (∀ c ∈ round, c.Valid) ∧ (m_ssl = false ∨ Meets round)) →
        ∀ transfer ∈ [send m_ssl, recv m_ssl], ∀ cursor,
          relay cursor (rounds.map transfer) =
            List.range' cursor ((rounds.map transfer).map fun r => r.1.toNat).sum := by
  refine ⟨accounts_send_iff m_ssl hvalid, accounts_send_iff m_ssl hvalid, ?_⟩
  intro rounds hrounds transfer htransfer cursor
  refine relay_eq (fun r hr => ?_) cursor
  obtain ⟨round, hround, rfl⟩ := List.mem_map.mp hr
  obtain ⟨hvalid', hmeets⟩ := hrounds round hround
  have haccounts := (accounts_send_iff m_ssl hvalid').mpr hmeets
  simp only [List.mem_cons, List.not_mem_nil, or_false] at htransfer
  rcases htransfer with rfl | rfl
  · exact haccounts
  · rwa [recv_eq_send]

/-- `accounts_iff` for a second buffer that is moved in part, and is offered again. -/
theorem accounts_iff_short :
    (Accounts (send true [⟨5, 5⟩, ⟨3, 2⟩]) ↔ true = false ∨ Meets [⟨5, 5⟩, ⟨3, 2⟩]) ∧
      (Accounts (recv true [⟨5, 5⟩, ⟨3, 2⟩]) ↔ true = false ∨ Meets [⟨5, 5⟩, ⟨3, 2⟩]) ∧
      relay 0 ([[⟨5, 5⟩, ⟨3, 2⟩], [⟨1, 1⟩]].map (send true)) = List.range' 0 8 := by
  have hshort := @accounts_iff [⟨5, 5⟩, ⟨3, 2⟩] true (by decide)
  have hone := @accounts_iff [⟨1, 1⟩] true (by decide)
  refine ⟨hshort.1, hshort.2.1, ?_⟩
  refine hshort.2.2 [[⟨5, 5⟩, ⟨3, 2⟩], [⟨1, 1⟩]] ?_ (send true) List.mem_cons_self 0
  simp only [List.forall_mem_cons, List.not_mem_nil, false_implies, implies_true, and_true]
  exact ⟨⟨by decide, hshort.1.mp (by decide)⟩, by decide, hone.1.mp (by decide)⟩

/-- Five bytes have been moved when the second call fails, and the result is that of the failure. -/
theorem not_accounts_of_fail :
    let buffers : List Call := [⟨5, 5⟩, ⟨3, -1⟩]
    (∀ c ∈ buffers, c.Valid) ∧ send true buffers = (-1, [0, 1, 2, 3, 4]) ∧
      ¬ Accounts (send true buffers) := by
  have hsend : send true [⟨5, 5⟩, ⟨3, -1⟩] = (-1, [0, 1, 2, 3, 4]) := by decide
  refine ⟨by decide, hsend, fun h => ?_⟩
  unfold Accounts at h
  rw [hsend] at h
  cases h

end Muhui.SSLSocket
