/-
The closure of a set under one-premise rules.

A rule system gives some elements a premise: `G a = some b` reads "whoever has `b`
may get `a`". The closure of `P` is the least set that contains `P` and every element
whose premise it contains. Everything below holds for any type and any rules.

The closure consists of what can be derived from `P` in any number of steps (`Derives`), so
it contains `P` and satisfies the rules, and a property that `P` has and that every rule
hands on is had by all of it, by induction on the derivation. Where every premise is its own
premise, one application of the rules is enough: an element is in the closure if it is in
`P` or its premise is (`closure_of_idempotent`).
-/
import Mathlib.Data.Set.Basic

set_option autoImplicit false

namespace RuleClosure

variable {α : Type*}

/-- Membership in the closure of `P` under the rules `G`. -/
inductive Derives (G : α → Option α) (P : Set α) : α → Prop
  | base {a : α} (h : a ∈ P) : Derives G P a
  | rule {a b : α} (h : G a = some b) (hb : Derives G P b) : Derives G P a

variable (G : α → Option α)

/-- A set that contains every element whose premise it contains. -/
def Closed (s : Set α) : Prop := ∀ a b, G a = some b → b ∈ s → a ∈ s

/-- The least closed set that contains `P`. -/
def closure (P : Set α) : Set α := {a | Derives G P a}

variable {G}

theorem subset_closure (P : Set α) : P ⊆ closure G P := fun _ h => .base h

theorem closed_closure (P : Set α) : Closed G (closure G P) := fun _ _ h hb => .rule h hb

/-- Where every premise is its own premise, one step is enough. -/
theorem closure_of_idempotent (hG : ∀ a b, G a = some b → G b = some b) (P : Set α) :
    closure G P = P ∪ {a | ∃ b, G a = some b ∧ b ∈ P} := by
  ext a
  constructor
  · intro h
    induction h with
    | base h => exact .inl h
    | @rule a b h _ ih =>
        refine .inr ⟨b, h, ?_⟩
        rcases ih with hb | ⟨c, hc, hP⟩
        · exact hb
        · rw [hG a b h] at hc
          rwa [Option.some.inj hc]
  · rintro (h | ⟨b, h, hb⟩)
    · exact .base h
    · exact .rule h (.base hb)

end RuleClosure
