/-
  Lookups in the maps of a request (`http.cc`).

  A request has a map of headers, a map of parameters and a map of cookies, each with a `get`, a
  `set`, a `del` and a `has`.  An iterator is an entry of one of the maps or the end of one of them,
  and the end may not be dereferenced (`none`).  All three `get`s compare with the end of the
  headers, which is the right end for the headers alone.

  `valueOf` is what a lookup is to find after some operations: the last value set under the key, in
  any case, and not deleted since.  `lookup_after` connects the maps with it.
-/
import Muhui.Http.Message

namespace Muhui.Http

/-- A request with the maps that printing and parsing do not touch. -/
structure ParamRequest extends HttpRequest where
  params : HeaderMap := .empty
  cookies : HeaderMap := .empty

/-- The maps of a request. -/
inductive MapName
  | headers
  | params
  | cookies
  deriving DecidableEq

/-- An iterator of one of the maps. -/
inductive Iterator
  | entry (which : MapName) (e : Bytes × Bytes)
  | atEnd (which : MapName)
  deriving DecidableEq

/-- `it->second` -/
def Iterator.second : Iterator → Option Bytes
  | entry _ e => some e.2
  | atEnd _ => none

namespace ParamRequest

def map (r : ParamRequest) : MapName → HeaderMap
  | .headers => r.headers
  | .params => r.params
  | .cookies => r.cookies

/-- `find(key)` of a map. -/
def find (r : ParamRequest) (which : MapName) (key : Bytes) : Iterator :=
  match (r.map which).find key with
  | some e => .entry which e
  | none => .atEnd which

/-! ### The functions -/

/-- The body of the `get`s: a lookup in the map `own`, whose result is compared with the end of the
map `other`. -/
def getFrom (r : ParamRequest) (own other : MapName) (key d : Bytes) : Option Bytes :=
  let it := r.find own key
  if it = .atEnd other then some d else it.second

def getHeader (r : ParamRequest) (key d : Bytes) : Option Bytes := r.getFrom .headers .headers key d
def getParam (r : ParamRequest) (key d : Bytes) : Option Bytes := r.getFrom .params .headers key d
def getCookie (r : ParamRequest) (key d : Bytes) : Option Bytes := r.getFrom .cookies .headers key d

/-- The body of the `has`s: whether there is an entry, with its value (`*val`) if there is. -/
def hasIn (r : ParamRequest) (which : MapName) (key : Bytes) : Option (Option Bytes) :=
  let it := r.find which key
  if it = .atEnd which then some none else it.second.map some

def hasHeader (r : ParamRequest) (key : Bytes) : Option (Option Bytes) := r.hasIn .headers key
def hasParam (r : ParamRequest) (key : Bytes) : Option (Option Bytes) := r.hasIn .params key
def hasCookie (r : ParamRequest) (key : Bytes) : Option (Option Bytes) := r.hasIn .cookies key

def setHeader (r : ParamRequest) (key val : Bytes) : ParamRequest :=
  { r with toHttpRequest := r.toHttpRequest.setHeader key val }
def setParam (r : ParamRequest) (key val : Bytes) : ParamRequest :=
  { r with params := r.params.insert key val }
def setCookie (r : ParamRequest) (key val : Bytes) : ParamRequest :=
  { r with cookies := r.cookies.insert key val }

def delHeader (r : ParamRequest) (key : Bytes) : ParamRequest :=
  { r with headers := r.headers.erase key }
def delParam (r : ParamRequest) (key : Bytes) : ParamRequest :=
  { r with params := r.params.erase key }
def delCookie (r : ParamRequest) (key : Bytes) : ParamRequest :=
  { r with cookies := r.cookies.erase key }

def setHeaders (r : ParamRequest) (v : HeaderMap) : ParamRequest := { r with headers := v }
def setParams (r : ParamRequest) (v : HeaderMap) : ParamRequest := { r with params := v }
def setCookies (r : ParamRequest) (v : HeaderMap) : ParamRequest := { r with cookies := v }

/-! ### Operations -/

/-- A call that changes one of the maps. -/
inductive Op
  | set (which : MapName) (key val : Bytes)
  | del (which : MapName) (key : Bytes)
  | setAll (which : MapName) (v : HeaderMap)

def apply (r : ParamRequest) : Op → ParamRequest
  | .set .headers key val => r.setHeader key val
  | .set .params key val => r.setParam key val
  | .set .cookies key val => r.setCookie key val
  | .del .headers key => r.delHeader key
  | .del .params key => r.delParam key
  | .del .cookies key => r.delCookie key
  | .setAll .headers v => r.setHeaders v
  | .setAll .params v => r.setParams v
  | .setAll .cookies v => r.setCookies v

/-- That map behind the operation. -/
def Op.changed (op : Op) (m : HeaderMap) : HeaderMap :=
  match op with
  | .set _ key val => m.insert key val
  | .del _ key => m.erase key
  | .setAll _ v => v

/-- The map that an operation changes. -/
def Op.target : Op → MapName
  | .set w _ _ => w
  | .del w _ => w
  | .setAll w _ => w

/-- A new request after some operations. -/
def after (ops : List Op) : ParamRequest := ops.foldl apply {}

def get (r : ParamRequest) : MapName → Bytes → Bytes → Option Bytes
  | .headers => r.getHeader
  | .params => r.getParam
  | .cookies => r.getCookie

def has (r : ParamRequest) : MapName → Bytes → Option (Option Bytes)
  | .headers => r.hasHeader
  | .params => r.hasParam
  | .cookies => r.hasCookie

/-- For the key in any case, `has` reports the same, and `get` returns what it reports or the
default. -/
def LookupsAgree (r : ParamRequest) (which : MapName) (key d : Bytes) : Prop :=
  ∃ reported, ∀ key', caseRank key' = caseRank key →
    r.has which key' = some reported ∧ r.get which key' d = some (reported.getD d)

/-! ### What a lookup is to find -/

/-- The value of a key behind an operation, from the one before it. -/
def Op.valueOf (which : MapName) (key : Bytes) (before : Option Bytes) : Op → Option Bytes
  | .set w k val => if w = which ∧ caseRank k = caseRank key then some val else before
  | .del w k => if w = which ∧ caseRank k = caseRank key then none else before
  | .setAll w v => if w = which then (v.find key).map Prod.snd else before

def valueOf (ops : List Op) (which : MapName) (key : Bytes) : Option Bytes :=
  ops.foldl (Op.valueOf which key) none

def lookup (r : ParamRequest) (which : MapName) (key : Bytes) : Option Bytes :=
  ((r.map which).find key).map Prod.snd

variable {r : ParamRequest} {which own other : MapName} {key d : Bytes}

/-! ### What an operation does to a map -/

/-- An operation changes one map. -/
theorem map_apply (r : ParamRequest) (op : Op) (which : MapName) :
    (r.apply op).map which =
      if op.target = which then op.changed (r.map which) else r.map which := by
  rcases op with ⟨w, key, val⟩ | ⟨w, key⟩ | ⟨w, v⟩ <;> cases w <;> cases which <;> rfl

theorem find_changed (op : Op) (m : HeaderMap) (key : Bytes) :
    ((op.changed m).find key).map Prod.snd =
      op.valueOf op.target key ((m.find key).map Prod.snd) := by
  unfold Op.changed Op.target Op.valueOf
  rcases op with ⟨w, k, val⟩ | ⟨w, k⟩ | ⟨w, v⟩
  · dsimp only
    rw [RankedMap.find_insert, apply_ite (Option.map Prod.snd)]
    simp
  · dsimp only
    rw [RankedMap.find_erase, apply_ite (Option.map Prod.snd)]
    simp
  · simp

theorem valueOf_of_ne {op : Op} (h : op.target ≠ which) (key : Bytes) (before : Option Bytes) :
    op.valueOf which key before = before := by
  rcases op with ⟨w, k, val⟩ | ⟨w, k⟩ | ⟨w, v⟩
  · exact if_neg fun hand => h hand.1
  · exact if_neg fun hand => h hand.1
  · exact if_neg h

theorem lookup_apply (r : ParamRequest) (op : Op) (which : MapName) (key : Bytes) :
    (r.apply op).lookup which key = op.valueOf which key (r.lookup which key) := by
  unfold lookup
  rw [map_apply]
  split_ifs with hw
  · rw [find_changed, hw]
  · rw [valueOf_of_ne hw]

theorem lookup_foldl (r : ParamRequest) (ops : List Op) (which : MapName) (key : Bytes) :
    (ops.foldl apply r).lookup which key =
      ops.foldl (Op.valueOf which key) (r.lookup which key) := by
  induction ops generalizing r with
  | nil => rfl
  | cons op ops ih => rw [List.foldl_cons, List.foldl_cons, ih, lookup_apply]

/-- **In every state that is reached the maps hold what was set and not deleted.** -/
theorem lookup_after (ops : List Op) (which : MapName) (key : Bytes) :
    (after ops).lookup which key = valueOf ops which key := by
  have hnew : (({} : ParamRequest).lookup which key) = none := by cases which <;> rfl
  unfold after valueOf
  rw [lookup_foldl, hnew]

/-! ### What the functions return -/

theorem hasIn_eq (r : ParamRequest) (which : MapName) (key : Bytes) :
    r.hasIn which key = some (r.lookup which key) := by
  unfold hasIn lookup find
  cases (r.map which).find key with
  | none => simp
  | some e => simp [Iterator.second]

/-- A key that is not there gives the default when the right ends are compared, and a fault
otherwise. -/
theorem getFrom_eq (r : ParamRequest) (own other : MapName) (key d : Bytes) :
    r.getFrom own other key d =
      match r.lookup own key with
      | some v => some v
      | none => if own = other then some d else none := by
  unfold getFrom lookup find
  cases (r.map own).find key with
  | none => simp [Iterator.second]
  | some e => simp [Iterator.second]

theorem has_eq (r : ParamRequest) (which : MapName) (key : Bytes) :
    r.has which key = some (r.lookup which key) := by
  cases which <;> exact r.hasIn_eq _ key

theorem get_eq (r : ParamRequest) (which : MapName) (key d : Bytes) :
    r.get which key d = r.getFrom which .headers key d := by
  cases which <;> rfl

theorem lookup_congr {key' : Bytes} (h : caseRank key' = caseRank key) :
    r.lookup which key' = r.lookup which key := by
  unfold lookup
  rw [RankedMap.find_congr h]

theorem lookupsAgree_iff_lookup :
    LookupsAgree r which key d ↔ which = .headers ∨ r.lookup which key ≠ none := by
  unfold LookupsAgree
  constructor
  · rintro ⟨reported, h⟩
    obtain ⟨-, hget⟩ := h key rfl
    rw [get_eq, getFrom_eq] at hget
    by_contra hnone
    rw [not_or, not_not] at hnone
    rw [hnone.2, if_neg hnone.1] at hget
    cases hget
  · intro h
    refine ⟨r.lookup which key, fun key' hkey => ?_⟩
    rw [has_eq, get_eq, getFrom_eq, lookup_congr hkey]
    refine ⟨rfl, ?_⟩
    cases hlookup : r.lookup which key with
    | none =>
      have hheaders := h.resolve_right fun hne => hne hlookup
      rw [hheaders, if_pos rfl]
      rfl
    | some v => rfl

/-- **When the lookups agree.**  For headers they always do; for parameters and cookies they do if
and only if the key, in some case, was set and not deleted since. -/
theorem lookupsAgree_iff (ops : List Op) (which : MapName) (key d : Bytes) :
    LookupsAgree (after ops) which key d ↔ which = .headers ∨ valueOf ops which key ≠ none := by
  rw [lookupsAgree_iff_lookup, lookup_after]

/-- The parameter `id` is set and deleted under another case: `hasParam` says that it is not there,
and `getParam` dereferences the end. -/
theorem not_lookupsAgree_of_deleted :
    let r := after [.set .params (bytes "id") (bytes "7"), .del .params (bytes "ID")]
    r.hasParam (bytes "id") = some none ∧ r.getParam (bytes "id") (bytes "0") = none ∧
      ¬LookupsAgree r .params (bytes "id") (bytes "0") := by
  refine ⟨by decide, by decide, ?_⟩
  rintro ⟨reported, h⟩
  obtain ⟨-, hget⟩ := h (bytes "id") rfl
  exact Option.some_ne_none _ (hget.symm.trans (by decide))

end ParamRequest

end Muhui.Http
