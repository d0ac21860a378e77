/-
URI references and what they resolve to (RFC 3986, sections 3, 4 and 5).

A string is taken apart into scheme, authority, path, query and fragment; a scheme is only
what the grammar of a scheme allows. Resolution fills in from a base what a reference lacks,
and a reference without scheme always lacks one. So a reference names one URI of its own
accord, whatever it is resolved against, exactly if it has a scheme
(`exists_denotes_iff`).

The text of a redirect passes through two hands. The server may put the directory of the
request in front of it, and replaces characters that are not ASCII by their percent-escapes;
the client resolves what arrives against the address that it asked for. Schemes come through
both unharmed, because a scheme consists of characters that nobody escapes and ends at the
first colon (`KeepsScheme`).

Dot segments are removed as the RFC does it, by its loop over an input and an output buffer
(`removeDots`).
-/
import Mathlib.Data.List.Basic
import Mathlib.Tactic.SplitIfs

set_option autoImplicit false

namespace Web

/-! ## References -/

structure Reference where
  scheme : Option (List Char)
  authority : Option (List Char)
  path : List Char
  query : Option (List Char)
  fragment : Option (List Char)
  deriving DecidableEq, Repr

structure Uri where
  scheme : List Char
  authority : Option (List Char)
  path : List Char
  query : Option (List Char)
  fragment : Option (List Char)
  deriving DecidableEq, Repr

/-- `ALPHA`. -/
def isAlphaChar (c : Char) : Bool := ('a' ≤ c && c ≤ 'z') || ('A' ≤ c && c ≤ 'Z')

def isSchemeChar (c : Char) : Bool :=
  isAlphaChar c || ('0' ≤ c && c ≤ '9') || c = '+' || c = '-' || c = '.'

/-- They are ASCII. -/
theorem isSchemeChar_lt {c : Char} (h : isSchemeChar c = true) : c.toNat < 128 := by
  have hle : c.toNat ≤ 'z'.toNat := by
    simp only [isSchemeChar, isAlphaChar, Bool.or_eq_true, Bool.and_eq_true,
      decide_eq_true_eq] at h
    rcases h with ((((⟨-, h⟩ | ⟨-, h⟩) | ⟨-, h⟩) | rfl) | rfl) | rfl
    · exact h
    · exact Nat.le_trans (show c.toNat ≤ 'Z'.toNat from h) (by decide)
    · exact Nat.le_trans (show c.toNat ≤ '9'.toNat from h) (by decide)
    all_goals decide
  exact Nat.lt_of_le_of_lt hle (by decide)

/-- `scheme ":"`, with `scheme = ALPHA *( ALPHA / DIGIT / "+" / "-" / "." )`. -/
def splitScheme (s : List Char) : Option (List Char × List Char) :=
  match s.takeWhile isSchemeChar, s.dropWhile isSchemeChar with
  | c :: cs, ':' :: rest => if isAlphaChar c then some (c :: cs, rest) else none
  | _, _ => none

/-- What stands before the first `c`, and what after it. -/
def cut (c : Char) (s : List Char) : List Char × Option (List Char) :=
  (s.takeWhile (· ≠ c), (s.dropWhile (· ≠ c)).tail?)

/-- `[ "//" authority ] path`. -/
def splitAuthority : List Char → Option (List Char) × List Char
  | '/' :: '/' :: rest => (some (rest.takeWhile (· ≠ '/')), rest.dropWhile (· ≠ '/'))
  | path => (none, path)

def Reference.parse (s : List Char) : Reference :=
  let (scheme, s) := match splitScheme s with
    | some (scheme, rest) => (some scheme, rest)
    | none => (none, s)
  let (s, fragment) := cut '#' s
  let (s, query) := cut '?' s
  let (authority, path) := splitAuthority s
  ⟨scheme, authority, path, query, fragment⟩

theorem Reference.parse_scheme (s : List Char) :
    (parse s).scheme = (splitScheme s).map Prod.fst := by
  unfold parse
  cases splitScheme s <;> rfl

/-! ## Schemes -/

theorem splitScheme_isSome_iff {s : List Char} : (splitScheme s).isSome = true ↔
    (∃ c, (s.takeWhile isSchemeChar).head? = some c ∧ isAlphaChar c = true) ∧
      (s.dropWhile isSchemeChar).head? = some ':' := by
  unfold splitScheme
  split
  · rename_i c cs rest hpre hrest
    rw [hpre, hrest]
    by_cases halpha : isAlphaChar c = true
    · simp [halpha]
    · simp [halpha]
  · rename_i hno
    constructor
    · intro h
      cases h
    · rintro ⟨⟨c, hc, -⟩, hcolon⟩
      obtain ⟨cs, hcs⟩ := List.head?_eq_some_iff.mp hc
      obtain ⟨rest, hrest⟩ := List.head?_eq_some_iff.mp hcolon
      exact absurd hrest (hno c cs rest hcs)

/-- A rewriting of a string that only touches characters which stand in no scheme and do not
end one. -/
structure KeepsScheme (f : Char → List Char) : Prop where
  keeps : ∀ c, isSchemeChar c = true → f c = [c]
  colon : f ':' = [':']
  stops : ∀ c, isSchemeChar c = false → ∃ d rest, f c = d :: rest ∧ isSchemeChar d = false ∧
    (d = ':' → c = ':')

section

variable {f : Char → List Char}

theorem KeepsScheme.takeWhile (hf : KeepsScheme f) (s : List Char) :
    (s.flatMap f).takeWhile isSchemeChar = s.takeWhile isSchemeChar := by
  induction s with
  | nil => rfl
  | cons c s ih =>
      rw [List.flatMap_cons]
      cases hc : isSchemeChar c with
      | true =>
          rw [hf.keeps c hc, List.singleton_append, List.takeWhile_cons_of_pos hc,
            List.takeWhile_cons_of_pos hc, ih]
      | false =>
          -- the scheme ends here, and so does its image
          obtain ⟨d, rest, hd, hstop, -⟩ := hf.stops c hc
          rw [hd, List.cons_append, List.takeWhile_cons_of_neg (by simp [hstop]),
            List.takeWhile_cons_of_neg (by simp [hc])]

theorem KeepsScheme.dropWhile (hf : KeepsScheme f) (s : List Char) :
    ((s.flatMap f).dropWhile isSchemeChar).head? = some ':' ↔
      (s.dropWhile isSchemeChar).head? = some ':' := by
  induction s with
  | nil => rfl
  | cons c s ih =>
      rw [List.flatMap_cons]
      cases hc : isSchemeChar c with
      | true =>
          rw [hf.keeps c hc, List.singleton_append, List.dropWhile_cons_of_pos hc,
            List.dropWhile_cons_of_pos hc, ih]
      | false =>
          obtain ⟨d, rest, hd, hstop, hcolon⟩ := hf.stops c hc
          rw [hd, List.cons_append, List.dropWhile_cons_of_neg (by simp [hstop]),
            List.dropWhile_cons_of_neg (by simp [hc]), List.head?_cons, List.head?_cons,
            Option.some_inj, Option.some_inj]
          refine ⟨hcolon, ?_⟩
          rintro rfl
          rw [hf.colon] at hd
          exact (List.cons.inj hd).1.symm

/-- The rewritten string has a scheme exactly if the string has. -/
theorem KeepsScheme.isSome_iff (hf : KeepsScheme f) (s : List Char) :
    (splitScheme (s.flatMap f)).isSome = true ↔ (splitScheme s).isSome = true := by
  rw [splitScheme_isSome_iff, splitScheme_isSome_iff, hf.takeWhile, hf.dropWhile]

end

/-! ## Resolution -/

/-- The path without its last segment and the slash before it. -/
def dropLastSegment (path : List Char) : List Char :=
  ((path.reverse.dropWhile (· ≠ '/')).drop 1).reverse

/-- One letter for each rule of the algorithm. The number bounds the steps: each of them
takes at least a character off the input. -/
def removeDots : ℕ → List Char → List Char → List Char
  | 0, _, output => output
  | _, [], output => output
  | n + 1, '.' :: '.' :: '/' :: rest, output => removeDots n rest output
  | n + 1, '.' :: '/' :: rest, output => removeDots n rest output
  | n + 1, '/' :: '.' :: '/' :: rest, output => removeDots n ('/' :: rest) output
  | n + 1, ['/', '.'], output => removeDots n ['/'] output
  | n + 1, '/' :: '.' :: '.' :: '/' :: rest, output =>
    removeDots n ('/' :: rest) (dropLastSegment output)
  | n + 1, ['/', '.', '.'], output => removeDots n ['/'] (dropLastSegment output)
  | _, ['.'], output => output
  | _, ['.', '.'], output => output
  | n + 1, c :: rest, output =>
    removeDots n (rest.dropWhile (· ≠ '/')) (output ++ c :: rest.takeWhile (· ≠ '/'))

def removeDotSegments (path : List Char) : List Char := removeDots path.length path []

/-- A relative path put in the place of the base's last segment. -/
def Uri.merge (base : Uri) (path : List Char) : List Char :=
  if base.authority.isSome ∧ base.path = [] then '/' :: path
  else (base.path.reverse.dropWhile (· ≠ '/')).reverse ++ path

def Uri.resolve (base : Uri) (r : Reference) : Uri :=
  match r.scheme with
  | some scheme => ⟨scheme, r.authority, removeDotSegments r.path, r.query, r.fragment⟩
  | none =>
    if r.authority.isSome then
      ⟨base.scheme, r.authority, removeDotSegments r.path, r.query, r.fragment⟩
    else if r.path = [] then
      ⟨base.scheme, base.authority, base.path, r.query.or base.query, r.fragment⟩
    else if r.path.head? = some '/' then
      ⟨base.scheme, base.authority, removeDotSegments r.path, r.query, r.fragment⟩
    else
      ⟨base.scheme, base.authority, removeDotSegments (base.merge r.path), r.query, r.fragment⟩

theorem Uri.resolve_of_scheme {r : Reference} {scheme : List Char} (h : r.scheme = some scheme)
    (base : Uri) : base.resolve r =
      ⟨scheme, r.authority, removeDotSegments r.path, r.query, r.fragment⟩ := by
  unfold resolve
  rw [h]

/-- A reference without scheme is given the one of the base. -/
theorem Uri.scheme_resolve {r : Reference} (h : r.scheme = none) (base : Uri) :
    (base.resolve r).scheme = base.scheme := by
  unfold resolve
  rw [h]
  dsimp only
  split_ifs <;> rfl

/-! ## What a reference denotes -/

/-- The reference resolves to `t` against every base. -/
def Reference.Denotes (r : Reference) (t : Uri) : Prop := ∀ base : Uri, base.resolve r = t

/-- **A reference names something of its own accord** exactly if it has a scheme. -/
theorem Reference.exists_denotes_iff (r : Reference) :
    (∃ t, r.Denotes t) ↔ r.scheme.isSome = true := by
  constructor
  · rintro ⟨t, ht⟩
    cases hscheme : r.scheme with
    | some scheme => rfl
    | none =>
        -- two bases with different schemes give two results
        have hone := Uri.scheme_resolve hscheme ⟨[], none, [], none, none⟩
        have htwo := Uri.scheme_resolve hscheme ⟨['a'], none, [], none, none⟩
        rw [ht] at hone htwo
        rw [hone] at htwo
        cases htwo
  · intro h
    obtain ⟨scheme, hscheme⟩ := Option.isSome_iff_exists.mp h
    exact ⟨_, Uri.resolve_of_scheme hscheme⟩

/-- It then denotes what it resolves to, here and elsewhere. -/
theorem Reference.denotes_resolve {r : Reference} (h : r.scheme.isSome = true) (base : Uri) :
    r.Denotes (base.resolve r) := by
  obtain ⟨t, ht⟩ := r.exists_denotes_iff.mpr h
  rwa [ht base]

end Web
