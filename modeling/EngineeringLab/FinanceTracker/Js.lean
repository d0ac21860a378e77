/-
JavaScript values, as far as the services hand them on: request bodies (any JSON) and
the objects the services build from them.

Numbers are exact rationals. A `Date` carries its time in milliseconds, or nothing
when it is invalid. An absent property reads as `undefined`.

The services read single properties of a body (`get`), ask whether a value is truthy, and
pass the rest on; nothing else of the language is needed. An object is a list of properties,
and `assign` is the spread that sets one of them and leaves the others as they are
(`get_assign_self`, `get_assign_of_ne`).

Prisma takes any number for an `Int` column and drops its fraction, so `int?` does too: it
is the integer that a number stands for there, and a value that is no number stands for
none.

The depth of a value bounds how far nested writes can go, and with it the recursion that
carries them out.
-/
import Mathlib.Data.Rat.Defs

set_option autoImplicit false

namespace EngineeringLab.FinanceTracker

inductive Js where
  | undefined
  | null
  | bool (b : Bool)
  | num (q : ℚ)
  | str (s : String)
  | date (time : Option ℤ)
  | arr (xs : List Js)
  | obj (fields : List (String × Js))

namespace Js

def int (z : ℤ) : Js := .num z

/-- The integer that a number is read as: what is behind its point is cut off. -/
def int? : Js → Option ℤ
  | num q => some (q.num.tdiv q.den)
  | _ => none

@[simp] theorem int?_int (z : ℤ) : (int z).int? = some z := by
  simp [int, int?]

/-- `data.key`. -/
def get : Js → String → Js
  | obj fields, key => (fields.lookup key).getD undefined
  | _, _ => undefined

/-- The properties that `...data` copies. -/
def entries : Js → List (String × Js)
  | obj fields => fields
  | arr xs => xs.zipIdx.map fun x => (toString x.2, x.1)
  | str s => s.toList.zipIdx.map fun c => (toString c.2, str (String.singleton c.1))
  | _ => []

/-- `{ ...data, key: v }`. -/
def assign (data : Js) (key : String) (v : Js) : Js :=
  obj (data.entries.filter (·.1 ≠ key) ++ [(key, v)])

/-- Is the value truthy? -/
def truthy : Js → Bool
  | undefined => false
  | null => false
  | bool b => b
  | num q => q ≠ 0
  | str s => s ≠ ""
  | _ => true

/-- The string, for a value that is one. -/
def string? : Js → Option String
  | str s => some s
  | _ => none

/-- `Array.isArray(v) ? v : [v]`, as Prisma reads a list argument. -/
def list : Js → List Js
  | arr xs => xs
  | v => [v]

theorem lookup_filter_ne {α : Type} {fields : List (String × α)} {key key' : String}
    (h : key' ≠ key) : (fields.filter (·.1 ≠ key)).lookup key' = fields.lookup key' := by
  induction fields with
  | nil => rfl
  | cons field fields ih =>
      obtain ⟨k, v⟩ := field
      by_cases hk : k = key
      · subst hk
        have hne : (key' == k) = false := by simpa using h
        simpa [List.lookup_cons, hne] using ih
      · rw [List.filter_cons_of_pos (by simpa using hk), List.lookup_cons, List.lookup_cons, ih]

theorem lookup_filter_self {α : Type} {fields : List (String × α)} {key : String} :
    (fields.filter (·.1 ≠ key)).lookup key = none := by
  rw [List.lookup_eq_none_iff]
  intro field hmem
  have hne := (List.mem_filter.mp hmem).2
  simp only [ne_eq, decide_not, Bool.not_eq_true', decide_eq_false_iff_not] at hne
  simpa using fun h => hne h.symm

@[simp] theorem get_assign_self (data : Js) (key : String) (v : Js) :
    (data.assign key v).get key = v := by
  simp only [assign, get, List.lookup_append, lookup_filter_self]
  simp

/-- The other properties of `{ ...data, key: v }` are those of `data`. -/
theorem get_assign_of_ne (data : Js) {key key' : String} (v : Js) (h : key' ≠ key) :
    (data.assign key v).get key' = (obj data.entries).get key' := by
  have hne : (key' == key) = false := by simpa using h
  simp only [assign, get, List.lookup_append, lookup_filter_ne h]
  simp [List.lookup_cons, hne]

/-! ## Depth -/

mutual

/-- How deep objects and arrays are nested in a value. -/
def depth : Js → ℕ
  | arr xs => depthList xs + 1
  | obj fields => depthFields fields + 1
  | _ => 0

def depthList : List Js → ℕ
  | [] => 0
  | x :: xs => max x.depth (depthList xs)

def depthFields : List (String × Js) → ℕ
  | [] => 0
  | (_, x) :: fields => max x.depth (depthFields fields)

end

end Js

end EngineeringLab.FinanceTracker
