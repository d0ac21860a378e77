/-
Dispatch by pattern, as `http.ServeMux` does it.

A pattern is a method, or none for all of them, and a path of literal segments and
wildcards. Of the patterns that match a request the most specific one gets it: the one that
each of the others covers, position by position. Registering refuses a pattern that could
leave this open, so a mux carries the proof that no two of its patterns cover each other, and
which handler gets a request is a matter of the patterns alone (`handler_eq_some_iff`).

Left out are hosts, trailing slashes, `{name...}` and `{$}`; paths are clean and without
escapes.

Registration is where the order of registrations could matter and does not: a pattern that
overlaps another without being more specific or less is refused, and `main` would panic at
its start. The mux is a list of entries with the proof that this has not happened, and
dispatch is a search for the entry that all other candidates cover. It is found if there is
any, and there is no other (`eq_of_covers`).
-/
import Mathlib.Data.List.Pairwise

set_option autoImplicit false

namespace Web

/-! ## Patterns -/

/-- A segment of a pattern: text, or `{name}`. -/
inductive Segment where
  | literal (text : String)
  | wildcard (name : String)
  deriving DecidableEq, Repr

structure Pattern where
  method : Option String
  segments : List Segment
  deriving DecidableEq, Repr

/-- A segment of a pattern string. -/
def Segment.parse (s : List Char) : Option Segment :=
  match s with
  | [] => none
  | '\x7b' :: rest =>
    if rest.length < 2 ∨ rest.getLast? ≠ some '\x7d' ∨ '.' ∈ rest ∨ '$' ∈ rest then none
    else some (.wildcard (String.ofList rest.dropLast))
  | _ => if '\x7b' ∈ s ∨ '\x7d' ∈ s then none else some (.literal (String.ofList s))

/-- The path of a pattern string. -/
def Pattern.parsePath : List Char → Option (List Segment)
  | '/' :: rest => (rest.splitOn '/').mapM Segment.parse
  | _ => none

/-- `[METHOD ]PATH`. -/
def Pattern.parse (s : String) : Option Pattern :=
  match s.toList.splitOn ' ' with
  | [path] => (parsePath path).map (⟨none, ·⟩)
  | [method, path] => (parsePath path).map (⟨some (String.ofList method), ·⟩)
  | _ => none

/-! ## Matching -/

structure MuxRequest where
  method : String
  path : String
  deriving DecidableEq, Repr

def pathSegments (path : String) : Option (List String) :=
  match path.toList with
  | '/' :: rest => some ((rest.splitOn '/').map String.ofList)
  | _ => none

/-- A path of one segment. -/
theorem pathSegments_single {s : String} (h : '/' ∉ s.toList) :
    pathSegments ("/" ++ s) = some [s] := by
  have hlist : ("/" ++ s).toList = '/' :: s.toList := by simp
  have hsplit : s.toList.splitOn '/' = [s.toList] := by
    rw [List.splitOn_eq_splitOnP]
    apply List.splitOnP_eq_singleton
    intro c hc
    rw [beq_eq_false_iff_ne]
    rintro rfl
    exact h hc
  simp only [pathSegments, hlist, hsplit, List.map_cons, List.map_nil, String.ofList_toList]

/-- `GET` is for `HEAD` too. -/
def methodMatches : Option String → String → Bool
  | none, _ => true
  | some m, m' => m = m' || (m = "GET" && m' = "HEAD")

/-- The values of the wildcards; a wildcard takes any segment but an empty one. -/
def bindSegments : List Segment → List String → Option (List (String × String))
  | [], [] => some []
  | .literal text :: ps, s :: ss => if text = s then bindSegments ps ss else none
  | .wildcard name :: ps, s :: ss =>
    if s = "" then none else (bindSegments ps ss).map ((name, s) :: ·)
  | _, _ => none

/-- What a pattern makes of a request that it matches. -/
def Pattern.bind (p : Pattern) (r : MuxRequest) : Option (List (String × String)) :=
  if methodMatches p.method r.method then (pathSegments r.path).bind (bindSegments p.segments)
  else none

/-! ## Which pattern is more specific -/

def methodCovers : Option String → Option String → Bool
  | none, _ => true
  | some m, some m' => methodMatches (some m) m'
  | some _, none => false

def Segment.covers : Segment → Segment → Bool
  | .wildcard _, .wildcard _ => true
  | .wildcard _, .literal text => text ≠ ""
  | .literal text, .literal text' => text = text'
  | .literal _, .wildcard _ => false

def segmentsCover : List Segment → List Segment → Bool
  | [], [] => true
  | p :: ps, q :: qs => p.covers q && segmentsCover ps qs
  | _, _ => false

/-- Where `q` has a literal segment, `p` has the same one or a wildcard. -/
def Pattern.covers (p q : Pattern) : Bool :=
  methodCovers p.method q.method && segmentsCover p.segments q.segments

def segmentsOverlap : List Segment → List Segment → Bool
  | [], [] => true
  | p :: ps, q :: qs => (p.covers q || q.covers p) && segmentsOverlap ps qs
  | _, _ => false

/-- The patterns overlap, and neither is the more specific one. -/
def Pattern.conflicts (p q : Pattern) : Bool :=
  (p.covers q && q.covers p) ||
    ((methodCovers p.method q.method || methodCovers q.method p.method) &&
      segmentsOverlap p.segments q.segments && !p.covers q && !q.covers p)

/-! ## The mux -/

/-- The registered patterns with their handlers. -/
structure ServeMux (H : Type) where
  entries : List (Pattern × H)
  apart : entries.Pairwise fun e e' => e.1.conflicts e'.1 = false

namespace ServeMux

variable {H : Type}

/-- `NewServeMux`. -/
def new : ServeMux H := ⟨[], .nil⟩

/-- `Handle`; `none` is its panic. -/
def handle (mux : ServeMux H) (pattern : String) (handler : H) : Option (ServeMux H) :=
  match Pattern.parse pattern with
  | none => none
  | some p =>
    if h : ∀ e ∈ mux.entries, e.1.conflicts p = false then
      some ⟨mux.entries ++ [(p, handler)], by
        rw [List.pairwise_append]
        refine ⟨mux.apart, List.pairwise_singleton _ _, fun e he e' he' => ?_⟩
        rw [List.mem_singleton.mp he']
        exact h e he⟩
    else none

/-- The entries that match a request. -/
def candidates (mux : ServeMux H) (r : MuxRequest) : List (Pattern × H) :=
  mux.entries.filter fun e => (e.1.bind r).isSome

/-- The handler of a request, and the path values it finds there. -/
def handler (mux : ServeMux H) (r : MuxRequest) : Option (H × List (String × String)) :=
  ((mux.candidates r).find? fun e => (mux.candidates r).all fun e' => e'.1.covers e.1).bind
    fun e => (e.1.bind r).map fun values => (e.2, values)

theorem mem_candidates {mux : ServeMux H} {r : MuxRequest} {e : Pattern × H} :
    e ∈ mux.candidates r ↔ e ∈ mux.entries ∧ (e.1.bind r).isSome = true := List.mem_filter

/-- Two entries whose patterns cover each other are one. -/
theorem eq_of_covers {mux : ServeMux H} {e e' : Pattern × H} (he : e ∈ mux.entries)
    (he' : e' ∈ mux.entries) (h : e.1.covers e'.1 = true) (h' : e'.1.covers e.1 = true) :
    e = e' := by
  let R : Pattern × H → Pattern × H → Prop :=
    fun a b => ¬ (a.1.covers b.1 = true ∧ b.1.covers a.1 = true)
  have hsymm : Std.Symm R := ⟨fun a b hab hba => hab hba.symm⟩
  have hapart : mux.entries.Pairwise R := by
    apply mux.apart.imp
    rintro a b hab ⟨hcov, hback⟩
    simp [Pattern.conflicts, hcov, hback] at hab
  by_contra hne
  exact hapart.forall he he' hne ⟨h, h'⟩

/-- **The most specific pattern gets the request.** -/
theorem handler_eq_some_iff {mux : ServeMux H} {r : MuxRequest} {h : H}
    {values : List (String × String)} :
    mux.handler r = some (h, values) ↔ ∃ p, (p, h) ∈ mux.entries ∧ p.bind r = some values ∧
      ∀ e ∈ mux.entries, (e.1.bind r).isSome = true → e.1.covers p = true := by
  unfold handler
  constructor
  · intro hhandler
    obtain ⟨e, hfind, hvalues⟩ := Option.bind_eq_some_iff.mp hhandler
    obtain ⟨values', hbind, heq⟩ := Option.map_eq_some_iff.mp hvalues
    cases heq
    have hall : (mux.candidates r).all (fun e' => e'.1.covers e.1) = true := by
      simpa only using List.find?_some hfind
    have hmost := List.all_eq_true.mp hall
    refine ⟨e.1, (mem_candidates.mp (List.mem_of_find?_eq_some hfind)).1, hbind, ?_⟩
    exact fun e' he' hmatch => hmost e' (mem_candidates.mpr ⟨he', hmatch⟩)
  · rintro ⟨p, hp, hbind, hmost⟩
    -- `p` passes the test that the search makes, so something is found
    have hcand : (p, h) ∈ mux.candidates r :=
      mem_candidates.mpr ⟨hp, by rw [hbind]; rfl⟩
    have hall : (mux.candidates r).all (fun e' => e'.1.covers p) = true := by
      rw [List.all_eq_true]
      intro e he
      obtain ⟨hmem, hmatch⟩ := mem_candidates.mp he
      exact hmost e hmem hmatch
    cases hfind : (mux.candidates r).find? fun e =>
        (mux.candidates r).all fun e' => e'.1.covers e.1 with
    | none => exact absurd hall (List.find?_eq_none.mp hfind _ hcand)
    | some e =>
        -- the entry that was found and `p` are each as specific as the other
        have hmem := mem_candidates.mp (List.mem_of_find?_eq_some hfind)
        have hfound : (mux.candidates r).all (fun e' => e'.1.covers e.1) = true := by
          simpa only using List.find?_some hfind
        have hback := List.all_eq_true.mp hfound _ hcand
        have heq := eq_of_covers hmem.1 hp (hmost e hmem.1 hmem.2) hback
        subst heq
        simp [hbind]

end ServeMux

end Web
