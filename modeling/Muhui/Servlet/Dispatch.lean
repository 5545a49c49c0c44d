/-
  `ServletDispatch` (`servlet.cc`) and the routing table it stands for.

  A routing table has at most one route for each uri and for each pattern.  The dispatcher keeps the
  patterns in a vector, and each function that changes the vector has its own loop that erases an
  old entry; the loop of `addGlobServletCreator` forgets to compare and erases the first entry.
-/
import Mathlib.Data.List.AList
import Muhui.Container.KeyedList
import Muhui.Http.Bytes

namespace Muhui.Servlet

open Http (Bytes bytes)

/-- An `IServletCreator`, with the servlet that `get` returns. -/
inductive IServletCreator (σ : Type*)
  | holdServletCreator (servlet : σ)
  | servletCreator (servlet : σ)
  deriving DecidableEq

def IServletCreator.get {σ : Type*} : IServletCreator σ → σ
  | holdServletCreator servlet | servletCreator servlet => servlet

/-- A call that changes the routes. -/
inductive Call (σ : Type*)
  | addServlet (uri : Bytes) (slt : σ)
  | addServletCreator (uri : Bytes) (creator : IServletCreator σ)
  | addGlobServlet (uri : Bytes) (slt : σ)
  | addGlobServletCreator (uri : Bytes) (creator : IServletCreator σ)
  | delServlet (uri : Bytes)
  | delGlobServlet (uri : Bytes)

/-! ### The dispatcher -/

structure ServletDispatch (σ : Type*) where
  /-- An `unordered_map`. -/
  datas : AList fun _ : Bytes => IServletCreator σ
  /-- A `vector` of pairs. -/
  globs : List (Bytes × IServletCreator σ)
  default : σ

namespace ServletDispatch

variable {σ : Type*}

def init (default : σ) : ServletDispatch σ := { datas := ∅, globs := [], default }

def addServletCreator (s : ServletDispatch σ) (uri : Bytes) (creator : IServletCreator σ) :
    ServletDispatch σ :=
  { s with datas := s.datas.insert uri creator }

def addServlet (s : ServletDispatch σ) (uri : Bytes) (slt : σ) : ServletDispatch σ :=
  { s with datas := s.datas.insert uri (.holdServletCreator slt) }

/-- The loop erases the first entry with the same pattern. -/
def addGlobServlet (s : ServletDispatch σ) (uri : Bytes) (slt : σ) : ServletDispatch σ :=
  { s with
    globs := (s.globs.eraseP fun e => e.1 = uri) ++ [(uri, .holdServletCreator slt)] }

/-- The loop erases the first entry and breaks, whatever its pattern. -/
def addGlobServletCreator (s : ServletDispatch σ) (uri : Bytes) (creator : IServletCreator σ) :
    ServletDispatch σ :=
  { s with globs := s.globs.tail ++ [(uri, creator)] }

def delServlet (s : ServletDispatch σ) (uri : Bytes) : ServletDispatch σ :=
  { s with datas := s.datas.erase uri }

def delGlobServlet (s : ServletDispatch σ) (uri : Bytes) : ServletDispatch σ :=
  { s with globs := s.globs.eraseP fun e => e.1 = uri }

/-- `fnmatch` is true when the pattern accepts the uri. -/
def getMatchedServlet (fnmatch : Bytes → Bytes → Bool) (s : ServletDispatch σ) (uri : Bytes) : σ :=
  match s.datas.lookup uri with
  | some creator => creator.get
  | none =>
    match s.globs.find? fun e => fnmatch e.1 uri with
    | some e => e.2.get
    | none => s.default

def call (s : ServletDispatch σ) : Call σ → ServletDispatch σ
  | .addServlet uri slt => s.addServlet uri slt
  | .addServletCreator uri creator => s.addServletCreator uri creator
  | .addGlobServlet uri slt => s.addGlobServlet uri slt
  | .addGlobServletCreator uri creator => s.addGlobServletCreator uri creator
  | .delServlet uri => s.delServlet uri
  | .delGlobServlet uri => s.delGlobServlet uri

end ServletDispatch

/-! ### The routing table -/

/-- One route at most for each uri, and for each pattern; the patterns in the order in which they
were last added. -/
structure Routes (σ : Type*) where
  exact : Bytes → Option (IServletCreator σ)
  globs : KeyedList Bytes (IServletCreator σ)

namespace Routes

variable {σ : Type*}

def init : Routes σ := { exact := fun _ => none, globs := .empty }

def call (r : Routes σ) : Call σ → Routes σ
  | .addServlet uri slt =>
    { r with exact := Function.update r.exact uri (some (.holdServletCreator slt)) }
  | .addServletCreator uri creator =>
    { r with exact := Function.update r.exact uri (some creator) }
  | .addGlobServlet uri slt => { r with globs := r.globs.addLast uri (.holdServletCreator slt) }
  | .addGlobServletCreator uri creator => { r with globs := r.globs.addLast uri creator }
  | .delServlet uri => { r with exact := Function.update r.exact uri none }
  | .delGlobServlet uri => { r with globs := r.globs.erase uri }

/-- The exact route, the first pattern that accepts the uri, or the default. -/
def matched (fnmatch : Bytes → Bytes → Bool) (default : σ) (r : Routes σ) (uri : Bytes) : σ :=
  ((r.exact uri).or ((r.globs.entries.find? fun e => fnmatch e.1 uri).map Prod.snd)).elim default
    IServletCreator.get

end Routes

/-! ### The refinement -/

section Refinement

variable {σ : Type*} {fnmatch : Bytes → Bytes → Bool} {default : σ} {s : ServletDispatch σ}
variable {r : Routes σ}

/-- The dispatcher has the routes of the table, in the same order, and matches as the table does. -/
structure Agrees (fnmatch : Bytes → Bytes → Bool) (default : σ) (s : ServletDispatch σ)
    (r : Routes σ) : Prop where
  datas : ∀ uri, s.datas.lookup uri = r.exact uri
  globs : s.globs = r.globs.entries
  matched : ∀ uri, s.getMatchedServlet fnmatch uri = r.matched fnmatch default uri

/-- When `addGlobServletCreator` erases no foreign route. -/
def OwnFirst (s : ServletDispatch σ) : Call σ → Prop
  | .addGlobServletCreator uri _ => ∀ e ∈ s.globs.head?, e.1 = uri
  | _ => True

/-- Matching is determined by the routes. -/
theorem agrees_of_routes (hdatas : ∀ uri, s.datas.lookup uri = r.exact uri)
    (hglobs : s.globs = r.globs.entries) (hdefault : s.default = default) :
    Agrees fnmatch default s r := by
  refine ⟨hdatas, hglobs, fun uri => ?_⟩
  unfold ServletDispatch.getMatchedServlet Routes.matched
  rw [hdatas, hglobs, hdefault]
  cases r.exact uri with
  | some creator => rfl
  | none =>
    cases r.globs.entries.find? fun e => fnmatch e.1 uri <;> rfl

theorem default_call (c : Call σ) : (s.call c).default = s.default := by
  cases c <;> rfl

theorem lookup_insert (m : AList fun _ : Bytes => IServletCreator σ) (uri : Bytes)
    (creator : IServletCreator σ) (f : Bytes → Option (IServletCreator σ))
    (h : ∀ uri, m.lookup uri = f uri) (uri' : Bytes) :
    (m.insert uri creator).lookup uri' = Function.update f uri (some creator) uri' := by
  by_cases heq : uri' = uri
  · rw [heq, AList.lookup_insert, Function.update_self]
  · rw [AList.lookup_insert_ne heq, Function.update_of_ne heq, h]

theorem lookup_erase (m : AList fun _ : Bytes => IServletCreator σ) (uri : Bytes)
    (f : Bytes → Option (IServletCreator σ)) (h : ∀ uri, m.lookup uri = f uri) (uri' : Bytes) :
    (m.erase uri).lookup uri' = Function.update f uri none uri' := by
  by_cases heq : uri' = uri
  · rw [heq, AList.lookup_erase, Function.update_self]
  · rw [AList.lookup_erase_ne heq, Function.update_of_ne heq, h]

/-- **Step lemma.** A call keeps the agreement exactly when it erases no foreign route. -/
theorem Agrees.call_iff (h : Agrees fnmatch default s r) (hdefault : s.default = default)
    (c : Call σ) : Agrees fnmatch default (s.call c) (r.call c) ↔ OwnFirst s c := by
  have hdefault' : (s.call c).default = default := by rw [default_call, hdefault]
  cases c with
  | addServlet uri slt =>
    exact iff_of_true (agrees_of_routes (lookup_insert _ _ _ _ h.datas) h.globs hdefault') trivial
  | addServletCreator uri creator =>
    exact iff_of_true (agrees_of_routes (lookup_insert _ _ _ _ h.datas) h.globs hdefault') trivial
  | delServlet uri =>
    exact iff_of_true (agrees_of_routes (lookup_erase _ _ _ h.datas) h.globs hdefault') trivial
  | addGlobServlet uri slt =>
    refine iff_of_true (agrees_of_routes h.datas ?_ hdefault') trivial
    show (s.globs.eraseP _) ++ _ = (r.globs.erase uri).entries ++ _
    rw [h.globs, KeyedList.eraseP_eq_erase]
  | delGlobServlet uri =>
    refine iff_of_true (agrees_of_routes h.datas ?_ hdefault') trivial
    show s.globs.eraseP _ = (r.globs.erase uri).entries
    rw [h.globs, KeyedList.eraseP_eq_erase]
  | addGlobServletCreator uri creator =>
    -- the first entry is gone, whichever it was; the table has lost that of `uri`, if any
    have htail : s.globs.tail ++ [(uri, creator)] =
        (r.globs.erase uri).entries ++ [(uri, creator)] ↔ ∀ e ∈ s.globs.head?, e.1 = uri := by
      rw [List.append_left_inj, h.globs, KeyedList.tail_eq_erase_iff]
    constructor
    · exact fun h' => htail.mp h'.globs
    · exact fun hown => agrees_of_routes h.datas (htail.mpr hown) hdefault'

/-! ### Histories -/

def ServletDispatch.calls (s : ServletDispatch σ) (cs : List (Call σ)) : ServletDispatch σ :=
  cs.foldl ServletDispatch.call s

def Routes.calls (r : Routes σ) (cs : List (Call σ)) : Routes σ := cs.foldl Routes.call r

theorem ServletDispatch.calls_append (s : ServletDispatch σ) (cs : List (Call σ)) (c : Call σ) :
    s.calls (cs ++ [c]) = (s.calls cs).call c :=
  List.foldl_append

theorem Routes.calls_append (r : Routes σ) (cs : List (Call σ)) (c : Call σ) :
    r.calls (cs ++ [c]) = (r.calls cs).call c :=
  List.foldl_append

theorem default_calls (s : ServletDispatch σ) (cs : List (Call σ)) :
    (s.calls cs).default = s.default := by
  induction cs using List.reverseRecOn with
  | nil => rfl
  | append_singleton cs c ih => rw [s.calls_append, default_call, ih]

/-- After every prefix of a history the dispatcher agrees with the routing table, exactly when no
call of the history erases a foreign route. -/
theorem agrees_iff_ownFirst (fnmatch : Bytes → Bytes → Bool) (default : σ) (cs : List (Call σ)) :
    (∀ pre, pre <+: cs →
      Agrees fnmatch default ((ServletDispatch.init default).calls pre) (Routes.init.calls pre)) ↔
      ∀ pre c, pre ++ [c] <+: cs → OwnFirst ((ServletDispatch.init default).calls pre) c := by
  have hdefault (pre : List (Call σ)) :
      ((ServletDispatch.init default).calls pre).default = default := default_calls _ _
  constructor
  -- agreement before and after the call says that the call has erased no foreign route
  · intro h pre c hpre
    rw [← (h pre ((List.prefix_append pre [c]).trans hpre)).call_iff (hdefault pre) c,
      ← ServletDispatch.calls_append, ← Routes.calls_append]
    exact h _ hpre
  · intro h pre hpre
    -- the invariant is the agreement itself
    induction pre using List.reverseRecOn with
    | nil => exact agrees_of_routes (fun _ => rfl) rfl rfl
    | append_singleton pre c ih =>
      have hagrees := ih ((List.prefix_append pre [c]).trans hpre)
      rw [ServletDispatch.calls_append, Routes.calls_append]
      exact (hagrees.call_iff (hdefault pre) c).mpr (h pre c hpre)

/-- A creator added under a second pattern erases the first route. -/
theorem not_agrees_creator :
    ¬∀ pre, pre <+: [Call.addGlobServlet (bytes "/a/*") 1,
        .addGlobServletCreator (bytes "/b/*") (.servletCreator 2)] →
      Agrees (fun p uri => p.dropLast.isPrefixOf uri) 0 ((ServletDispatch.init 0).calls pre)
        (Routes.init.calls pre) := by
  intro h
  exact absurd (h _ List.prefix_rfl).globs (by decide)

end Refinement

end Muhui.Servlet
