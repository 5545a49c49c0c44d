/-
  What each operation of a `TimerManager` does to the ordered set and to the timers.

  The comparator of `m_timer` reads deadlines through the pointers, so the set is only a set as
  long as no deadline of a timer in it is written; `Ordered` is that invariant.  Every operation
  takes a timer out before it writes its deadline (`insert_store`), and from `Ordered` the
  `find` of `cancel`, `refresh` and `reset` succeeds exactly on the timers of the set.
-/
import Muhui.Timer.Basic

namespace Muhui

variable {P κ : Type*} [LinearOrder P]

/-! ### The comparator -/

namespace Timer

theorem less_eq_true {mem : P → Timer κ} {a b : P} :
    less mem a b = true ↔
      (mem a).next < (mem b).next ∨ (mem a).next = (mem b).next ∧ a < b := by
  rw [less, comparator]
  split_ifs with hab hba
  · simp [hab]
  · exact iff_of_false (by simp) (by omega)
  · rw [decide_eq_true_iff]
    constructor
    · exact fun h => Or.inr ⟨by omega, h⟩
    · rintro (h | ⟨-, h⟩)
      · exact absurd h hab
      · exact h

theorem less_strictTotal (mem : P → Timer κ) : OrderedSet.StrictTotal (less mem) where
  irrefl a := by
    rw [Bool.eq_false_iff, ne_eq, less_eq_true]
    rintro (h | ⟨-, h⟩)
    · omega
    · exact lt_irrefl a h
  trans a b c hab hbc := by
    rw [less_eq_true] at hab hbc ⊢
    rcases hab with hab | ⟨hab, hab'⟩ <;> rcases hbc with hbc | ⟨hbc, hbc'⟩
    · left; omega
    · left; omega
    · left; omega
    · exact Or.inr ⟨hab.trans hbc, hab'.trans hbc'⟩
  trichotomous a b hab hba := by
    rw [Bool.eq_false_iff, ne_eq, less_eq_true, not_or, not_and] at hab hba
    have hnext : (mem a).next = (mem b).next := by omega
    exact le_antisymm (not_lt.mp (hba.2 hnext.symm)) (not_lt.mp (hab.2 hnext))

/-- The comparator only reads the two deadlines. -/
theorem less_congr {mem mem' : P → Timer κ} {a b : P} (ha : (mem' a).next = (mem a).next)
    (hb : (mem' b).next = (mem b).next) : less mem' a b = less mem a b := by
  rw [Bool.eq_iff_iff, less_eq_true, less_eq_true, ha, hb]

end Timer

namespace TimerManager

variable {m : TimerManager P κ} {p q : P}

/-- `m_timer` is a set in the order of `Timer::Comparator`. -/
def Ordered (m : TimerManager P κ) : Prop := OrderedSet.Sorted (Timer.less m.mem) m.timer

theorem Ordered.nodup (h : m.Ordered) : m.timer.Nodup :=
  OrderedSet.Sorted.nodup (Timer.less_strictTotal m.mem) h

/-- A sublist of an ordered set is one, as long as its deadlines are the same. -/
theorem Ordered.of_sublist {m' : TimerManager P κ} (h : m.Ordered)
    (hsub : m'.timer.Sublist m.timer)
    (hnext : ∀ q ∈ m'.timer, (m'.mem q).next = (m.mem q).next) : m'.Ordered :=
  OrderedSet.Sorted.congr (List.Pairwise.sublist hsub h) fun a ha b hb =>
    Timer.less_congr (hnext a ha) (hnext b hb)

@[simp] theorem store_timer (t : Timer κ) : (m.store p t).timer = m.timer := rfl

theorem store_mem (t : Timer κ) : (m.store p t).mem q = if q = p then t else m.mem q :=
  Function.update_apply m.mem p t q

theorem store_mem_of_ne (h : q ≠ p) (t : Timer κ) : (m.store p t).mem q = m.mem q :=
  Function.update_of_ne h _ _

@[simp] theorem insert_mem : (m.insert p).mem = m.mem := rfl

theorem mem_insert : q ∈ (m.insert p).timer ↔ q = p ∨ q ∈ m.timer :=
  OrderedSet.mem_insert (Timer.less_strictTotal m.mem)

/-- Writing to a timer that is not in the set and then inserting it keeps the order. -/
theorem insert_store (h : m.Ordered) (hp : p ∉ m.timer) (t : Timer κ) :
    ((m.store p t).insert p).Ordered := by
  have hstore : (m.store p t).Ordered := by
    refine h.of_sublist (List.Sublist.refl _) fun q hq => ?_
    have hne : q ≠ p := fun heq => hp (heq ▸ hq)
    rw [store_mem_of_ne hne]
  exact OrderedSet.Sorted.insert (Timer.less_strictTotal _) hstore

/-- `find` and `erase` on a timer of the set. -/
theorem Ordered.exists_find (h : m.Ordered) (hp : p ∈ m.timer) :
    ∃ it, m.find p = some it ∧ m.eraseAt it = { m with timer := m.timer.erase p } := by
  obtain ⟨it, hfind, herase⟩ :=
    OrderedSet.exists_find_of_mem (Timer.less_strictTotal m.mem) h hp
  exact ⟨it, hfind, by rw [eraseAt, herase]⟩

theorem Ordered.erase (h : m.Ordered) (p : P) :
    Ordered { m with timer := m.timer.erase p } :=
  h.of_sublist List.erase_sublist fun _ _ => rfl

@[simp] theorem addTimerLocked_mem : (m.addTimerLocked p).2.mem = m.mem := by
  simp only [addTimerLocked]
  split_ifs <;> rfl

@[simp] theorem addTimerLocked_timer : (m.addTimerLocked p).2.timer = (m.insert p).timer := by
  simp only [addTimerLocked]
  split_ifs <;> rfl

theorem addTimerLocked_ordered (h : (m.insert p).Ordered) : (m.addTimerLocked p).2.Ordered :=
  h.of_sublist (by rw [addTimerLocked_timer]) fun q _ => by rw [addTimerLocked_mem, insert_mem]

/-! ### Operations that keep the life of every timer -/

/-- Nothing but deadlines and periods has changed: the same timers are in the set, with the same
callbacks. -/
structure SameLife (m m' : TimerManager P κ) : Prop where
  ordered : m'.Ordered
  mem_iff : ∀ q, q ∈ m'.timer ↔ q ∈ m.timer
  cb : ∀ q, (m'.mem q).cb = (m.mem q).cb
  recurring : ∀ q, (m'.mem q).recurring = (m.mem q).recurring

/-- Taking a timer out, writing its deadline and its period, and inserting it again. -/
theorem sameLife_reinsert (h : m.Ordered) (hp : p ∈ m.timer) {t : Timer κ}
    (hcb : t.cb = (m.mem p).cb) (hrec : t.recurring = (m.mem p).recurring) :
    SameLife m ((store { m with timer := m.timer.erase p } p t).insert p) where
  ordered := insert_store (h.erase p) (h.nodup.not_mem_erase) t
  mem_iff q := by
    rw [mem_insert, store_timer, h.nodup.mem_erase_iff]
    constructor
    · rintro (rfl | ⟨-, hq⟩)
      · exact hp
      · exact hq
    · intro hq
      by_cases heq : q = p
      · exact Or.inl heq
      · exact Or.inr ⟨heq, hq⟩
  cb q := by
    rw [insert_mem, store_mem]
    split_ifs with heq
    · rw [heq, hcb]
    · rfl
  recurring q := by
    rw [insert_mem, store_mem]
    split_ifs with heq
    · rw [heq, hrec]
    · rfl

theorem SameLife.refl (h : m.Ordered) : SameLife m m := ⟨h, by simp, by simp, by simp⟩

/-- The clock-dependent part of `getNextTimer` and `detectClockRollover` is no part of a life. -/
theorem sameLife_of_eq {m' : TimerManager P κ} (h : m.Ordered) (htimer : m'.timer = m.timer)
    (hmem : m'.mem = m.mem) : SameLife m m' where
  ordered := h.of_sublist (by rw [htimer]) fun q _ => by rw [hmem]
  mem_iff q := by rw [htimer]
  cb q := by rw [hmem]
  recurring q := by rw [hmem]

omit [LinearOrder P] in
/-- `getNextTimer` only resets `m_tickled`. -/
theorem getNextTimer_snd (m : TimerManager P κ) (now : ℕ) :
    (m.getNextTimer now).2 = { m with tickled := false } := by
  rw [getNextTimer]
  split <;> rfl

theorem getNextTimer_sameLife (h : m.Ordered) (now : ℕ) : SameLife m (m.getNextTimer now).2 := by
  rw [getNextTimer_snd]
  exact sameLife_of_eq h rfl rfl

/-- `refresh` on a timer of the set takes it out, writes its deadline and puts it back. -/
theorem refresh_of_mem (h : m.Ordered) (hp : p ∈ m.timer) (hcb : (m.mem p).cb.isSome = true)
    (now : ℕ) :
    m.refresh p now =
      (true, (store { m with timer := m.timer.erase p } p
        { m.mem p with next := addU64 now (m.mem p).ms }).insert p) := by
  obtain ⟨it, hfind, herase⟩ := h.exists_find hp
  rw [refresh, if_pos hcb]
  simp only [hfind, herase]

/-- `refresh` gives up on a timer without a callback. -/
theorem refresh_of_cb_none (hcb : (m.mem p).cb = none) (now : ℕ) :
    m.refresh p now = (false, m) := by
  rw [refresh, hcb]
  rfl

/-- **`refresh` on a timer of the set.** -/
theorem refresh_sameLife (h : m.Ordered) (hp : p ∈ m.timer) (now : ℕ) :
    SameLife m (m.refresh p now).2 := by
  by_cases hcb : (m.mem p).cb.isSome = true
  · rw [refresh_of_mem h hp hcb]
    exact sameLife_reinsert h hp rfl rfl
  · rw [refresh_of_cb_none (by simpa using hcb)]
    exact SameLife.refl h

/-- What `reset` writes to the timer `t`. -/
def resetTo (t : Timer κ) (ms : ℕ) (from_now : Bool) (now : ℕ) : Timer κ :=
  { t with ms := ms, next := addU64 (if from_now then now else subU64 t.next t.ms) ms }

/-- `reset` on a timer of the set takes it out, writes its period and its deadline and adds it
again. -/
theorem reset_of_mem (h : m.Ordered) (hp : p ∈ m.timer) (hcb : (m.mem p).cb.isSome = true)
    {ms : ℕ} {from_now : Bool} {seen : ℕ} (hseen : ¬(ms = seen ∧ from_now = false)) (now : ℕ) :
    m.reset p ms from_now now seen =
      (true, (store { m with timer := m.timer.erase p } p
        (resetTo (m.mem p) ms from_now now)).addTimerLocked p) := by
  obtain ⟨it, hfind, herase⟩ := h.exists_find hp
  rw [reset, if_neg hseen, if_pos hcb]
  simp only [hfind, herase, resetTo]

/-- `reset` gives up when the period is the old one. -/
theorem reset_of_same {ms : ℕ} {from_now : Bool} {seen : ℕ} (hseen : ms = seen ∧ from_now = false)
    (now : ℕ) : m.reset p ms from_now now seen = (false, false, m) := by
  rw [reset, if_pos hseen]

/-- `reset` gives up on a timer without a callback. -/
theorem reset_of_cb_none (hcb : (m.mem p).cb = none) (ms : ℕ) (from_now : Bool) (now seen : ℕ) :
    m.reset p ms from_now now seen = (false, false, m) := by
  rw [reset, hcb]
  split
  · rfl
  · rfl

/-- **`reset` on a timer of the set.** -/
theorem reset_sameLife (h : m.Ordered) (hp : p ∈ m.timer) (ms : ℕ) (from_now : Bool)
    (now seen : ℕ) : SameLife m (m.reset p ms from_now now seen).2.2 := by
  by_cases hseen : ms = seen ∧ from_now = false
  · rw [reset_of_same hseen]
    exact SameLife.refl h
  by_cases hcb : (m.mem p).cb.isSome = true
  · rw [reset_of_mem h hp hcb hseen]
    have hinsert : SameLife m ((store { m with timer := m.timer.erase p } p
        (resetTo (m.mem p) ms from_now now)).insert p) := sameLife_reinsert h hp rfl rfl
    exact
      { ordered := addTimerLocked_ordered hinsert.ordered
        mem_iff := fun q => by rw [addTimerLocked_timer]; exact hinsert.mem_iff q
        cb := fun q => by rw [addTimerLocked_mem]; exact hinsert.cb q
        recurring := fun q => by rw [addTimerLocked_mem]; exact hinsert.recurring q }
  · rw [reset_of_cb_none (by simpa using hcb)]
    exact SameLife.refl h

/-! ### Arming, cancelling and expiring -/

theorem addTimer_timer (ms : ℕ) (cb : Option κ) (recurring : Bool) (now : ℕ) :
    q ∈ (m.addTimer p ms cb recurring now).2.timer ↔ q = p ∨ q ∈ m.timer := by
  rw [addTimer, addTimerLocked_timer, mem_insert, store_timer]

theorem addTimer_ordered (h : m.Ordered) (hp : p ∉ m.timer) (ms : ℕ) (cb : Option κ)
    (recurring : Bool) (now : ℕ) : (m.addTimer p ms cb recurring now).2.Ordered :=
  addTimerLocked_ordered (insert_store h hp _)

theorem addTimer_mem (ms : ℕ) (cb : Option κ) (recurring : Bool) (now : ℕ) :
    (m.addTimer p ms cb recurring now).2.mem =
      Function.update m.mem p
        { recurring := recurring, ms := ms, next := addU64 now ms, cb := cb } := by
  rw [addTimer, addTimerLocked_mem, store]

/-- **`cancel` on a timer of the set** empties its callback and takes it out. -/
theorem cancel_of_mem (h : m.Ordered) (hp : p ∈ m.timer) (hcb : (m.mem p).cb.isSome = true) :
    m.cancel p =
      .ok (true, { m.store p { m.mem p with cb := none } with timer := m.timer.erase p }) := by
  have hstore : (m.store p { m.mem p with cb := none }).Ordered := by
    refine h.of_sublist (List.Sublist.refl _) fun q _ => ?_
    rw [store_mem]
    split_ifs with heq
    · rw [heq]
    · rfl
  obtain ⟨it, hfind, herase⟩ := hstore.exists_find (p := p) hp
  rw [cancel, if_pos hcb]
  simp only [hfind, herase, store_timer]

/-- `cancel` gives up on a timer without a callback. -/
theorem cancel_of_cb_none (hcb : (m.mem p).cb = none) : m.cancel p = .ok (false, m) := by
  rw [cancel, hcb]
  rfl

/-- What the expiry of the timers `qs` does: the recurring ones of them stay armed, the others
lose their callback, and nothing else happens to any timer. -/
structure Expires (m : TimerManager P κ) (qs : List P) (m' : TimerManager P κ) : Prop where
  ordered : m'.Ordered
  mem_iff : ∀ q, q ∈ m'.timer ↔ q ∈ m.timer ∨ q ∈ qs ∧ (m.mem q).recurring = true
  recurring : ∀ q, (m'.mem q).recurring = (m.mem q).recurring
  cb : ∀ q, (m'.mem q).cb =
    if q ∈ qs ∧ (m.mem q).recurring = false then none else (m.mem q).cb

/-- One turn of the loop of `listExpiredCb`. -/
theorem expires_one (h : m.Ordered) (hq : q ∉ m.timer) (now : ℕ) :
    Expires m [q]
      (if (m.mem q).recurring then
        (m.store q { m.mem q with next := addU64 now (m.mem q).ms }).insert q
      else m.store q { m.mem q with cb := none }) := by
  split_ifs with hrec
  · refine ⟨insert_store h hq _, fun r => ?_, fun r => ?_, fun r => ?_⟩
    · rw [mem_insert, store_timer, List.mem_singleton]
      constructor
      · rintro (rfl | hr)
        · exact Or.inr ⟨rfl, hrec⟩
        · exact Or.inl hr
      · rintro (hr | ⟨rfl, -⟩)
        · exact Or.inr hr
        · exact Or.inl rfl
    · rw [insert_mem, store_mem]
      split_ifs with heq
      · rw [heq]
      · rfl
    · rw [insert_mem, store_mem]
      by_cases heq : r = q
      · simp [heq, hrec]
      · simp [heq]
  · have hstore : (m.store q { m.mem q with cb := none }).Ordered := by
      refine h.of_sublist (List.Sublist.refl _) fun r hr => ?_
      have hne : r ≠ q := fun heq => hq (heq ▸ hr)
      rw [store_mem_of_ne hne]
    refine ⟨hstore, fun r => ?_, fun r => ?_, fun r => ?_⟩
    · rw [store_timer, List.mem_singleton]
      constructor
      · exact Or.inl
      · rintro (hr | ⟨rfl, hr⟩)
        · exact hr
        · exact absurd hr hrec
    · rw [store_mem]
      split_ifs with heq
      · rw [heq]
      · rfl
    · rw [store_mem]
      by_cases heq : r = q
      · simp [heq, hrec]
      · simp [heq]

/-- **The loop of `listExpiredCb`** on timers that have been taken out of the set: their callbacks
are handed out once each, in order. -/
theorem expireLoop_spec (now : ℕ) {qs : List P} (h : m.Ordered) (hnodup : qs.Nodup)
    (hout : ∀ q ∈ qs, q ∉ m.timer) :
    (expireLoop now qs m).1 = qs.map (fun q => (q, (m.mem q).cb)) ∧
      Expires m qs (expireLoop now qs m).2 := by
  induction qs generalizing m with
  | nil =>
    refine ⟨rfl, h, fun q => ?_, fun q => rfl, fun q => ?_⟩ <;> simp [expireLoop]
  | cons q qs ih =>
    obtain ⟨hqs, hnodup⟩ := List.nodup_cons.mp hnodup
    have hone := expires_one h (hout q List.mem_cons_self) now
    rw [expireLoop]
    generalize (if (m.mem q).recurring then
        (m.store q { m.mem q with next := addU64 now (m.mem q).ms }).insert q
      else m.store q { m.mem q with cb := none }) = m₁ at hone
    have hcb₁ : ∀ r ∈ qs, (m₁.mem r).cb = (m.mem r).cb := by
      intro r hr
      rw [hone.cb, if_neg]
      rintro ⟨hrq, -⟩
      exact hqs (List.mem_singleton.mp hrq ▸ hr)
    have hout₁ : ∀ r ∈ qs, r ∉ m₁.timer := by
      intro r hr
      rw [hone.mem_iff, not_or]
      refine ⟨hout r (List.mem_cons_of_mem q hr), ?_⟩
      rintro ⟨hrq, -⟩
      exact hqs (List.mem_singleton.mp hrq ▸ hr)
    obtain ⟨hcbs, hrest⟩ := ih hone.ordered hnodup hout₁
    refine ⟨?_, hrest.ordered, fun r => ?_, fun r => ?_, fun r => ?_⟩
    · rw [hcbs, List.map_cons, List.map_congr_left fun r hr => by rw [hcb₁ r hr]]
    · rw [hrest.mem_iff, hone.mem_iff, hone.recurring, List.mem_singleton, List.mem_cons]
      tauto
    · rw [hrest.recurring, hone.recurring]
    · rw [hrest.cb, hone.cb, hone.recurring]
      by_cases hrq : r = q
      · subst hrq
        simp [hqs]
      · simp [hrq]

theorem takeExpired_spec (h : m.Ordered) {rollover : Bool} {now : ℕ} {probe : P}
    {out : List (P × Option κ)} {m' : TimerManager P κ}
    (hok : m.takeExpired rollover now probe = .ok (out, m')) :
    ∃ qs rest, m.timer = qs ++ rest ∧ out = qs.map (fun q => (q, (m.mem q).cb)) ∧
      Expires { m with timer := rest } qs m' := by
  have hfront : ∀ it r, expireLoop now (m.timer.take it) { m with timer := m.timer.drop it } = r →
      ∃ qs rest, m.timer = qs ++ rest ∧ r.1 = qs.map (fun q => (q, (m.mem q).cb)) ∧
        Expires { m with timer := rest } qs r.2 := by
    rintro it _ rfl
    have hrest : Ordered { m with timer := m.timer.drop it } :=
      h.of_sublist (List.drop_sublist it m.timer) fun _ _ => rfl
    have hnodup : (m.timer.take it ++ m.timer.drop it).Nodup := by
      rw [List.take_append_drop]
      exact h.nodup
    obtain ⟨htake, -, hdisj⟩ := List.nodup_append.mp hnodup
    exact ⟨_, _, (List.take_append_drop it m.timer).symm,
      expireLoop_spec now hrest htake fun q hq hq' => hdisj q hq q hq' rfl⟩
  simp only [takeExpired] at hok
  split at hok
  · exact hfront _ (out, m') (Except.ok.inj hok)
  · cases hok
  · split_ifs at hok
    · obtain ⟨rfl, rfl⟩ := Prod.mk.inj (Except.ok.inj hok)
      exact ⟨[], m.timer, rfl, rfl, h, by simp, by simp, by simp⟩
    · exact hfront _ (out, m') (Except.ok.inj hok)

/-- **`listExpiredCb`** takes a front part `qs` of the set out and lets it expire. -/
theorem listExpiredCb_spec (h : m.Ordered) {now : ℕ} {probe : P}
    {out : List (P × Option κ)} {m' : TimerManager P κ}
    (hok : m.listExpiredCb now probe = .ok (out, m')) :
    ∃ qs rest, m.timer = qs ++ rest ∧ out = qs.map (fun q => (q, (m.mem q).cb)) ∧
      Expires { m with timer := rest } qs m' := by
  obtain ⟨qs, rest, htimer, hout, hexp⟩ :=
    takeExpired_spec (m := (m.detectClockRollover now).2) h hok
  exact ⟨qs, rest, htimer, hout, hexp.ordered, hexp.mem_iff, hexp.recurring, hexp.cb⟩

/-- The only fault of `listExpiredCb` is to look at the first timer of an empty set. -/
theorem listExpiredCb_error {now : ℕ} {probe : P} {f : IteratorFault}
    (herr : m.listExpiredCb now probe = .error f) : f = .derefEnd ∧ m.timer = [] := by
  simp only [listExpiredCb, takeExpired] at herr
  split at herr
  · cases herr
  next htimer => exact ⟨(Except.error.inj herr).symm, htimer⟩
  · split_ifs at herr

/-- What expiry writes to the timer `t`: a recurring one gets its next deadline, another one loses
its callback. -/
def expired (now : ℕ) (t : Timer κ) : Timer κ :=
  if t.recurring then { t with next := addU64 now t.ms } else { t with cb := none }

theorem expireLoop_mem (now : ℕ) {qs : List P} (hnodup : qs.Nodup) :
    (expireLoop now qs m).2.mem q = if q ∈ qs then expired now (m.mem q) else m.mem q := by
  induction qs generalizing m with
  | nil => simp [expireLoop]
  | cons r qs ih =>
    obtain ⟨hr, hnodup⟩ := List.nodup_cons.mp hnodup
    -- one turn of the loop writes to `r` only
    have hturn : (if (m.mem r).recurring then
        (m.store r { m.mem r with next := addU64 now (m.mem r).ms }).insert r
        else m.store r { m.mem r with cb := none }).mem =
        Function.update m.mem r (expired now (m.mem r)) := by
      unfold expired
      split_ifs <;> rfl
    rw [expireLoop, ih hnodup, hturn]
    by_cases hqr : q = r
    · subst hqr
      rw [if_neg hr, if_pos List.mem_cons_self, Function.update_self]
    · have hmem : q ∈ r :: qs ↔ q ∈ qs := by simp [hqr]
      simp only [Function.update_of_ne hqr, hmem]

@[simp] theorem expireLoop_tickled (now : ℕ) (qs : List P) :
    (expireLoop now qs m).2.tickled = m.tickled := by
  induction qs generalizing m with
  | nil => rfl
  | cons r qs ih =>
    rw [expireLoop, ih]
    split_ifs <;> rfl

/-- Under the write lock `listExpiredCb` does nothing, or it runs its loop over the timers before
the iterator. -/
theorem takeExpired_eq {rollover : Bool} {now : ℕ} {probe : P} {out : List (P × Option κ)}
    {m' : TimerManager P κ} (hok : m.takeExpired rollover now probe = .ok (out, m')) :
    (out = [] ∧ m' = m) ∨
      (out, m') = expireLoop now (m.timer.take (m.expiredEnd rollover now probe))
        { m with timer := m.timer.drop (m.expiredEnd rollover now probe) } := by
  simp only [takeExpired] at hok
  split at hok
  · exact Or.inr (Except.ok.inj hok).symm
  · cases hok
  · split_ifs at hok
    · exact Or.inl (by simpa [eq_comm] using Except.ok.inj hok)
    · exact Or.inr (Except.ok.inj hok).symm

omit [LinearOrder P] in
theorem next_eq_of_mem_take_skipEqual {mem : P → Timer κ} {now : ℕ} {l : List P}
    (hq : q ∈ l.take (skipEqual mem now l)) : (mem q).next = now := by
  induction l with
  | nil => cases hq
  | cons r l ih =>
    rw [skipEqual] at hq
    split_ifs at hq with hr
    · rw [List.take_succ_cons] at hq
      rcases List.mem_cons.mp hq with rfl | hq
      · exact hr
      · exact ih hq
    · cases hq

/-- Without a rollover only timers that are due are taken. -/
theorem next_le_of_mem_take_expiredEnd {now : ℕ} {probe : P} (hprobe : probe ∉ m.timer)
    (hq : q ∈ m.timer.take (m.expiredEnd false now probe)) : (m.mem q).next ≤ now := by
  have hqm : q ∈ m.timer := List.mem_of_mem_take hq
  have hne : q ≠ probe := fun heq => hprobe (heq ▸ hqm)
  simp only [expiredEnd, Bool.false_eq_true, if_false] at hq
  rw [List.take_add, List.mem_append] at hq
  rcases hq with hq | hq
  · -- before the lower bound of the probe
    have hlt := OrderedSet.lt_of_mem_take_lowerBound hq
    rw [Timer.less_eq_true, Function.update_self, Function.update_of_ne hne] at hlt
    rcases hlt with hlt | ⟨heq, -⟩
    · exact hlt.le
    · exact heq.le
  · exact (next_eq_of_mem_take_skipEqual hq).le

end TimerManager

end Muhui
