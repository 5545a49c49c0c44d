/-
  The text of an IPv6 address (`address.cc`).

  `insert` prints the address between brackets, as eight groups in hexadecimal with the first run of
  zero groups replaced by `::`.  It reads the groups as 16-bit words of the machine and carries a
  flag that tells whether the run is over.  `text_eq_of_run` takes the loop apart along that run:
  the groups before it, the run, and the groups behind it.
-/
import Muhui.Address.IPv6
import Muhui.Encoding.AddressText

namespace Muhui.Address

open Rfc4291 (join Denotes parseText countDouble)

namespace In6Addr

/-- `addr[i]`, the address read as eight `uint16_t`. -/
def word (a : In6Addr) (i : Fin 8) : BitVec 16 := a ⟨2 * i + 1, by omega⟩ ++ a ⟨2 * i, by omega⟩

def words (a : In6Addr) : List (BitVec 16) := List.ofFn a.word

/-- The groups of the address: its bytes in pairs, the first of them the higher one. -/
def groups (a : In6Addr) : List ℕ :=
  List.ofFn fun i : Fin 8 =>
    (a ⟨2 * i, by omega⟩).toNat * 256 + (a ⟨2 * i + 1, by omega⟩).toNat

end In6Addr

namespace IPv6Address

/-- `os << std::hex << (int)byteswapOnLittleEndian(w)` -/
def hex (w : BitVec 16) : List Char := Nat.toDigits 16 (byteswapOnLittleEndian w).toNat

/-- The loop of `insert`: `before` is `addr[i - 1]`, if there is one.  It returns what is printed
and the flag `used_zeros`. -/
def insertLoop : Option (BitVec 16) → Bool → List (BitVec 16) → List Char × Bool
  | _, used_zeros, [] => ([], used_zeros)
  | before, used_zeros, w :: ws =>
    if w = 0 ∧ used_zeros = false then insertLoop (some w) used_zeros ws
    else
      let ends := before = some 0 ∧ used_zeros = false
      let r := insertLoop (some w) (used_zeros || ends) ws
      ((if ends then [':'] else []) ++ (if before.isSome then [':'] else []) ++ hex w ++ r.1, r.2)

/-- What is printed between the brackets. -/
def text (a : In6Addr) : List Char :=
  let r := insertLoop none false a.words
  if r.2 = false ∧ a.word 7 = 0 then r.1 ++ [':', ':'] else r.1

/-- `IPv6Address::insert` -/
def insert (a : IPv6Address) : List Char :=
  ['['] ++ text a.m_addr.s6_addr ++ [']', ':'] ++
    Nat.toDigits 10 (byteswapOnLittleEndian a.m_addr.sin6_port).toNat

/-- `IPv6Address::Create(address, port)` with the `inet_pton` of the system. -/
def create (inet_pton : List Char → Option In6Addr) (address : List Char) (port : BitVec 16) :
    Option IPv6Address :=
  (inet_pton address).map fun addr => ofBytes addr port

/-! ### The loop -/

/-- Groups with a colon before each. -/
def tail (ws : List (BitVec 16)) : List Char := ws.flatMap fun w => ':' :: hex w

variable {w x : BitVec 16} {ws us vs : List (BitVec 16)} {n : ℕ}

theorem join_hex_cons (w : BitVec 16) (ws : List (BitVec 16)) :
    join ((w :: ws).map hex) = hex w ++ tail ws := by
  induction ws generalizing w with
  | nil => simp [tail]
  | cons x ws ih =>
    rw [List.map_cons, List.map_cons, Rfc4291.join_cons_cons, ← List.map_cons, ih]
    rfl

/-- Behind the run everything is printed. -/
theorem insertLoop_used (x : BitVec 16) (ws : List (BitVec 16)) :
    insertLoop (some x) true ws = (tail ws, true) := by
  induction ws generalizing x with
  | nil => rfl
  | cons w ws ih =>
    rw [insertLoop, if_neg (by simp)]
    simp [ih, tail]

/-- In the run nothing is printed. -/
theorem insertLoop_zeros (before : Option (BitVec 16)) (n : ℕ) (ws : List (BitVec 16)) :
    insertLoop before false (List.replicate (n + 1) 0 ++ ws) = insertLoop (some 0) false ws := by
  induction n generalizing before with
  | zero => rw [List.replicate_one, List.singleton_append, insertLoop, if_pos ⟨rfl, rfl⟩]
  | succ n ih => rw [List.replicate_succ, List.cons_append, insertLoop, if_pos ⟨rfl, rfl⟩, ih]

/-- The first group behind the run. -/
theorem insertLoop_ends (hw : w ≠ 0) (ws : List (BitVec 16)) :
    insertLoop (some 0) false (w :: ws) = (':' :: ':' :: join ((w :: ws).map hex), true) := by
  rw [insertLoop, if_neg (fun hand => hw hand.1), join_hex_cons]
  simp [insertLoop_used]

/-- Before the run everything is printed, too. -/
theorem insertLoop_cons {before : Option (BitVec 16)} (hbefore : before ≠ some 0) (hw : w ≠ 0)
    (ws : List (BitVec 16)) :
    insertLoop before false (w :: ws) =
      ((if before.isSome then [':'] else []) ++ hex w ++ (insertLoop (some w) false ws).1,
        (insertLoop (some w) false ws).2) := by
  have hends : ¬before = some 0#16 := hbefore
  rw [insertLoop, if_neg (fun hand => hw hand.1)]
  simp [hends]

theorem insertLoop_append (hx : x ≠ 0) (hus : (0 : BitVec 16) ∉ us) :
    insertLoop (some x) false (us ++ ws) =
      (tail us ++ (insertLoop (some (us.getLastD x)) false ws).1,
        (insertLoop (some (us.getLastD x)) false ws).2) := by
  induction us generalizing x with
  | nil => rfl
  | cons u us ih =>
    rw [List.mem_cons, not_or] at hus
    have hu : u ≠ 0 := Ne.symm hus.1
    rw [List.cons_append, insertLoop_cons (fun h => hx (Option.some.inj h)) hu, ih hu hus.2,
      List.getLastD_cons]
    simp [tail]

theorem insertLoop_none_append (hus : (0 : BitVec 16) ∉ us) :
    insertLoop none false (us ++ ws) =
      (join (us.map hex) ++ (insertLoop us.getLast? false ws).1,
        (insertLoop us.getLast? false ws).2) := by
  cases us with
  | nil => rfl
  | cons u us =>
    rw [List.mem_cons, not_or] at hus
    have hu : u ≠ 0 := Ne.symm hus.1
    rw [List.cons_append, insertLoop_cons (Option.some_ne_none 0).symm hu,
      insertLoop_append hu hus.2, join_hex_cons, List.getLast?_cons, ← List.getLastD_eq_getLast?]
    simp

/-! ### The text -/

theorem exists_run (h : (0 : BitVec 16) ∈ ws) :
    ∃ us n vs, ws = us ++ (List.replicate (n + 1) 0 ++ vs) ∧ (0 : BitVec 16) ∉ us ∧
      ∀ v ∈ vs.head?, v ≠ 0 := by
  obtain ⟨us, rest, rfl, hus⟩ := List.eq_append_cons_of_mem h
  refine ⟨us, (rest.takeWhile (· = 0)).length, rest.dropWhile (· = 0), ?_, hus, ?_⟩
  · have hzeros : rest.takeWhile (· = 0) = List.replicate (rest.takeWhile (· = 0)).length 0 :=
      List.eq_replicate_of_mem fun w hw =>
        of_decide_eq_true (List.all_eq_true.mp List.all_takeWhile w hw)
    rw [List.replicate_succ, List.cons_append, ← hzeros, List.takeWhile_append_dropWhile]
  · intro v hv
    have hnot := List.head?_dropWhile_not (fun w : BitVec 16 => decide (w = 0)) rest
    rw [Option.mem_def.mp hv] at hnot
    simpa using hnot

variable {a : In6Addr}

theorem length_words (a : In6Addr) : a.words.length = 8 := List.length_ofFn

theorem getLast?_words (a : In6Addr) : a.words.getLast? = some (a.word 7) := by
  rw [List.getLast?_eq_getElem?, length_words]
  unfold In6Addr.words
  rw [List.getElem?_ofFn]
  rfl

/-- An address without zero groups. -/
theorem text_eq (h : (0 : BitVec 16) ∉ a.words) : text a = join (a.words.map hex) := by
  have hlast : a.word 7 ≠ 0 := fun hzero =>
    h (hzero ▸ List.mem_of_getLast? (getLast?_words a))
  have hloop := @insertLoop_none_append [] a.words h
  rw [List.append_nil] at hloop
  unfold text
  rw [hloop, if_neg fun hand => hlast hand.2]
  simp [insertLoop]

/-- The first run of zero groups is replaced by `::`. -/
theorem text_eq_of_run (h : a.words = us ++ (List.replicate (n + 1) 0 ++ vs))
    (hus : (0 : BitVec 16) ∉ us) (hvs : ∀ v ∈ vs.head?, v ≠ 0) :
    text a = join (us.map hex) ++ ':' :: ':' :: join (vs.map hex) := by
  unfold text
  rw [h, insertLoop_none_append hus, insertLoop_zeros]
  cases vs with
  | nil =>
    -- the run reaches the end, and the loop has not printed it
    have hlast : a.word 7 = 0 := by
      have hrun := getLast?_words a
      rw [h, List.append_nil, List.getLast?_append, List.getLast?_replicate] at hrun
      simpa using hrun.symm
    simp [insertLoop, hlast]
  | cons v vs =>
    rw [insertLoop_ends (hvs v rfl)]
    simp

/-! ### What the text denotes -/

/-- The value of a group. -/
def value (w : BitVec 16) : ℕ := (byteswapOnLittleEndian w).toNat

theorem value_lt (w : BitVec 16) : value w < 2 ^ 16 := (byteswapOnLittleEndian w).isLt

theorem value_zero : value 0 = 0 := by decide

theorem value_append (b c : BitVec 8) : value (b ++ c) = c.toNat * 256 + b.toNat := by
  have hb := b.isLt
  have hc := c.isLt
  have hword : (b ++ c).toNat = b.toNat * 256 + c.toNat := by
    rw [BitVec.toNat_append, ← Nat.shiftLeft_add_eq_or_of_lt hc, Nat.shiftLeft_eq]
  have hmod : (b.toNat * 256 + c.toNat) % 256 = c.toNat := by omega
  have hdiv : (b.toNat * 256 + c.toNat) / 256 % 256 = b.toNat := by omega
  unfold value byteswapOnLittleEndian
  rw [BitVec.toNat_ofNat, hword, byteswap_two, hmod, hdiv, Nat.mod_eq_of_lt (by omega)]

theorem map_value_words (a : In6Addr) : a.words.map value = a.groups := by
  unfold In6Addr.words In6Addr.groups
  rw [List.map_ofFn]
  congr 1
  ext i : 1
  exact value_append _ _

theorem groups_of_run (h : a.words = us ++ (List.replicate (n + 1) 0 ++ vs)) :
    a.groups = us.map value ++ List.replicate (n + 1) 0 ++ vs.map value := by
  rw [← map_value_words, h, List.map_append, List.map_append, List.map_replicate, value_zero,
    List.append_assoc]

theorem map_hex (ws : List (BitVec 16)) :
    ws.map hex = (ws.map value).map (Nat.toDigits 16) := by
  rw [List.map_map]
  rfl

theorem mapM_hex (ws : List (BitVec 16)) :
    (ws.map hex).mapM Rfc4291.hexGroup = some (ws.map value) := by
  rw [map_hex]
  refine Rfc4291.mapM_toDigits fun v hv => ?_
  obtain ⟨w, -, rfl⟩ := List.mem_map.mp hv
  exact value_lt w

/-- The text is a valid one, and denotes the address. -/
theorem denotes_text (a : In6Addr) : Denotes (text a) a.groups := by
  have hlength := length_words a
  by_cases h : (0 : BitVec 16) ∈ a.words
  · obtain ⟨us, n, vs, hwords, hus, hvs⟩ := exists_run h
    rw [hwords, List.length_append, List.length_append, List.length_replicate] at hlength
    have hdenotes := Denotes.compressed (mapM_hex us) (Rfc4291.values_of_mapM (mapM_hex vs))
      (by rw [List.length_map, List.length_map]; omega)
    have hrun : 8 - ((us.map value).length + (vs.map value).length) = n + 1 := by
      rw [List.length_map, List.length_map]
      omega
    rw [hrun] at hdenotes
    rwa [text_eq_of_run hwords hus hvs, groups_of_run hwords]
  · rw [text_eq h, ← map_value_words]
    refine Denotes.full (Rfc4291.values_of_mapM (mapM_hex _)) ?_
    rw [List.length_map, hlength]

theorem isPiece_hex (ws : List (BitVec 16)) : ∀ p ∈ ws.map hex, Rfc4291.IsPiece p :=
  Rfc4291.isPiece_of_mapM (mapM_hex ws)

theorem countDouble_text_of_run (h : a.words = us ++ (List.replicate (n + 1) 0 ++ vs))
    (hus : (0 : BitVec 16) ∉ us) (hvs : ∀ v ∈ vs.head?, v ≠ 0) : countDouble (text a) = 1 := by
  have hhead : (join (vs.map hex)).head? ≠ some ':' := by
    cases vs with
    | nil => simp
    | cons v vs =>
      have hne := Rfc4291.head?_join_ne (isPiece_hex (v :: vs)) (List.cons_ne_nil _ _) []
      rwa [List.append_nil] at hne
  rw [text_eq_of_run h hus hvs, Rfc4291.countDouble_join_append (isPiece_hex us),
    Rfc4291.countDouble_double hhead, Rfc4291.countDouble_join (isPiece_hex vs)]

theorem countDouble_text_le (a : In6Addr) : countDouble (text a) ≤ 1 := by
  by_cases h : (0 : BitVec 16) ∈ a.words
  · obtain ⟨us, n, vs, hwords, hus, hvs⟩ := exists_run h
    exact (countDouble_text_of_run hwords hus hvs).le
  · rw [text_eq h, Rfc4291.countDouble_join (isPiece_hex _)]
    exact Nat.zero_le 1

/-- Where `::` stands in the text, a run of zero groups is left out. -/
theorem exists_run_of_text {l r : List Char} (h : text a = l ++ ':' :: ':' :: r) :
    ∃ us n vs, a.groups = us ++ List.replicate (n + 1) 0 ++ vs ∧
      l = join (us.map (Nat.toDigits 16)) ∧ r = join (vs.map (Nat.toDigits 16)) := by
  have hle := countDouble_text_le a
  by_cases hzero : (0 : BitVec 16) ∈ a.words
  · obtain ⟨us, n, vs, hwords, hus, hvs⟩ := exists_run hzero
    rw [text_eq_of_run hwords hus hvs] at h hle
    obtain ⟨rfl, rfl⟩ := Rfc4291.append_double_inj h hle
    exact ⟨us.map value, n, vs.map value, groups_of_run hwords, by rw [map_hex], by rw [map_hex]⟩
  · have hpos := Rfc4291.countDouble_pos l r
    rw [← h, text_eq hzero, Rfc4291.countDouble_join (isPiece_hex _)] at hpos
    exact absurd hpos (by decide)

theorem notMem_hex (w : BitVec 16) : ']' ∉ hex w :=
  Rfc4291.notMem_of_hexGroup (by decide) (Rfc4291.hexGroup_toDigits (value_lt w))

theorem notMem_insertLoop (before : Option (BitVec 16)) (used_zeros : Bool)
    (ws : List (BitVec 16)) : ']' ∉ (insertLoop before used_zeros ws).1 := by
  induction ws generalizing before used_zeros with
  | nil => exact List.not_mem_nil
  | cons w ws ih =>
    rw [insertLoop]
    split_ifs <;> simp [ih, notMem_hex]

/-- The first closing bracket is the one behind the text. -/
theorem notMem_text (a : In6Addr) : ']' ∉ text a := by
  unfold text
  dsimp only
  split_ifs <;> simp [notMem_insertLoop]

/-- **The printed text denotes the printed address.**  Between the brackets there is a text of the
address.  An `inet_pton` that reads every text of an address as this address reads it back, and `::`
stands at one place at most, for a run of zero groups that is not empty. -/
theorem insert_faithful {inet_pton : List Char → Option In6Addr}
    (hpton : ∀ t b, Denotes t b.groups → inet_pton t = some b) (a : IPv6Address)
    (port : BitVec 16) :
    ∃ t, insert a = ['['] ++ t ++ [']', ':'] ++
          Nat.toDigits 10 (byteswapOnLittleEndian a.m_addr.sin6_port).toNat ∧
      ']' ∉ t ∧ Denotes t a.m_addr.s6_addr.groups ∧
      inet_pton t = some a.m_addr.s6_addr ∧
      create inet_pton t port = some (ofBytes a.m_addr.s6_addr port) ∧
      countDouble t ≤ 1 ∧
      ∀ l r, t = l ++ ':' :: ':' :: r →
        ∃ us n vs, a.m_addr.s6_addr.groups = us ++ List.replicate (n + 1) 0 ++ vs ∧
          l = join (us.map (Nat.toDigits 16)) ∧ r = join (vs.map (Nat.toDigits 16)) := by
  have hdenotes := denotes_text a.m_addr.s6_addr
  have hread := hpton _ _ hdenotes
  refine ⟨text a.m_addr.s6_addr, rfl, notMem_text _, hdenotes, hread, ?_, countDouble_text_le _,
    fun l r h => exists_run_of_text h⟩
  rw [create, hread, Option.map_some]

end IPv6Address

namespace In6Addr

/-- The address with these groups. -/
def ofGroups (g : List ℕ) : In6Addr := fun k =>
  BitVec.ofNat 8 (g.getD (k / 2) 0 / 256 ^ (1 - k % 2 : ℕ))

theorem ofGroups_groups (a : In6Addr) : ofGroups a.groups = a := by
  ext k : 1
  have hk := k.isLt
  have hgroup : a.groups.getD (k / 2) 0 = (a ⟨2 * (k / 2), by omega⟩).toNat * 256 +
      (a ⟨2 * (k / 2) + 1, by omega⟩).toNat := by
    unfold groups
    rw [List.getD_eq_getElem?_getD, List.getElem?_ofFn, dif_pos (by omega), Option.getD_some]
  have hlow := (a ⟨2 * (k / 2) + 1, by omega⟩).isLt
  apply BitVec.eq_of_toNat_eq
  unfold ofGroups
  rw [BitVec.toNat_ofNat, hgroup]
  rcases Nat.mod_two_eq_zero_or_one k with hmod | hmod
  · have hhigh : (⟨2 * (k / 2), by omega⟩ : Fin 16) = k := Fin.ext (by simp; omega)
    rw [hmod, hhigh]
    omega
  · have hlow : (⟨2 * (k / 2) + 1, by omega⟩ : Fin 16) = k := Fin.ext (by simp; omega)
    rw [hmod, hlow]
    omega

end In6Addr

namespace IPv6Address

/-- `2001:db8::1:0:0:1`: two runs of zeros, of which the first is left out. -/
theorem insert_faithful_two_runs :
    let a : In6Addr := fun k => [0x20, 0x01, 0x0d, 0xb8, 0, 0, 0, 0, 0, 1, 0, 0, 0, 0, 0, 1].get k
    insert (ofBytes a 80) = "[2001:db8::1:0:0:1]:80".toList ∧
      create (fun t => (parseText t).map In6Addr.ofGroups) "2001:db8::1:0:0:1".toList 443 =
        some (ofBytes a 443) := by
  intro a
  have hpton (t : List Char) (b : In6Addr) (h : Denotes t b.groups) :
      (parseText t).map In6Addr.ofGroups = some b := by
    rw [Rfc4291.parseText_eq_some_iff.mpr h, Option.map_some, In6Addr.ofGroups_groups]
  have hprinted : insert (ofBytes a 80) = "[2001:db8::1:0:0:1]:80".toList := by decide
  have hport : Nat.toDigits 10 (byteswapOnLittleEndian (ofBytes a 80).m_addr.sin6_port).toNat =
      ['8', '0'] := by decide
  obtain ⟨t, ht, -, -, -, hcreate, -⟩ := insert_faithful hpton (ofBytes a 80) 443
  have htext : "2001:db8::1:0:0:1".toList = t := by
    rw [hprinted, hport] at ht
    exact List.append_cancel_right (show _ ++ [']', ':', '8', '0'] = _ from by simpa using ht)
  rw [htext]
  exact ⟨hprinted, hcreate⟩

end IPv6Address

end Muhui.Address
