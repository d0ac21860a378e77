/-
Machines that a scheduler drives.

Where a party loops for ever (a worker, a sweeper), its program is no finite tree, and the
parties are modelled as one state and a step for each move of each of them. What a move does
is a function, and `none` where the move is not possible; all that a scheduler can decide is
the list of moves. An invariant is what the start has and every move keeps
(`Machine.invariant`).

A condition on moves restricts the runs that are looked at (`Machine.Meets`): what the moves
that meet it keep, every run has whose moves all meet it (`invariant_of_meets`). Both a
state and the list of moves are concrete, so that whether a given run meets a decidable
condition can be computed.

Some properties speak of the past as well, as of what was sent and has not arrived. For
these the invariant may depend on the list of moves so far (`invariant_along`); the state
need not keep a record that the program does not have.
-/

set_option autoImplicit false

namespace Concurrency

/-- A state to start from, and what each move of a party does. -/
structure Machine (σ M : Type) where
  start : σ
  step : σ → M → Option σ

namespace Machine

variable {σ M : Type} (m : Machine σ M)

/-- The state after a list of moves, if each was possible when it was made. -/
def runFrom : σ → List M → Option σ
  | s, [] => some s
  | s, a :: l => (m.step s a).bind fun s' => runFrom s' l

def run (l : List M) : Option σ := m.runFrom m.start l

variable {m}

theorem runFrom_cons {s s' : σ} {a : M} {l : List M} (h : m.runFrom s (a :: l) = some s') :
    ∃ u, m.step s a = some u ∧ m.runFrom u l = some s' :=
  Option.bind_eq_some_iff.mp h

theorem runFrom_append (s : σ) (l l' : List M) :
    m.runFrom s (l ++ l') = (m.runFrom s l).bind fun u => m.runFrom u l' := by
  induction l generalizing s with
  | nil => rfl
  | cons a l ih =>
      rw [List.cons_append, runFrom, runFrom, Option.bind_assoc]
      exact congrArg _ (funext ih)

theorem run_concat {s s' : σ} {a : M} {l : List M} (h : m.run l = some s)
    (ha : m.step s a = some s') : m.run (l ++ [a]) = some s' := by
  have hlast : m.runFrom s [a] = some s' := by
    rw [runFrom, ha]
    rfl
  rw [run] at h ⊢
  rw [runFrom_append, h]
  exact hlast

variable (m) in
/-- Every move of the run is made in a state that meets the condition. -/
def Meets (ok : σ → M → Prop) : σ → List M → Prop
  | _, [] => True
  | s, a :: l => ok s a ∧ ∀ s' ∈ m.step s a, Meets ok s' l

instance decidableMeets {ok : σ → M → Prop} [∀ s a, Decidable (ok s a)] :
    ∀ (s : σ) (l : List M), Decidable (m.Meets ok s l)
  | _, [] => .isTrue trivial
  | s, a :: l =>
    have : ∀ s', Decidable (m.Meets ok s' l) := fun s' => decidableMeets s' l
    inferInstanceAs (Decidable (ok s a ∧ ∀ s' ∈ m.step s a, m.Meets ok s' l))

theorem meets_trivial (s : σ) (l : List M) : m.Meets (fun _ _ => True) s l := by
  induction l generalizing s with
  | nil => trivial
  | cons a l ih => exact ⟨trivial, fun s' _ => ih s'⟩

/-- **The rule under a condition**: what moves that meet the condition keep, a run has whose
moves all meet it. -/
theorem invariant_of_meets {I : σ → Prop} {ok : σ → M → Prop}
    (hstep : ∀ s a s', I s → ok s a → m.step s a = some s' → I s') {s s' : σ} {l : List M}
    (hs : I s) (hok : m.Meets ok s l) (h : m.runFrom s l = some s') : I s' := by
  induction l generalizing s with
  | nil =>
      cases h
      exact hs
  | cons a l ih =>
      obtain ⟨u, hu, hrest⟩ := runFrom_cons h
      exact ih (hstep s a u hs hok.1 hu) (hok.2 u hu) hrest

/-- **The rule of invariants**: what the start has and every move keeps, every run has. -/
theorem invariant {I : σ → Prop} (hstart : I m.start)
    (hstep : ∀ s a s', I s → m.step s a = some s' → I s') {s : σ} {l : List M}
    (h : m.run l = some s) : I s :=
  invariant_of_meets (fun s a s' hs _ => hstep s a s' hs) hstart (meets_trivial _ l) h

/-- The rule for what also depends on the moves so far: it holds at the start, and each move
carries it from the moves before to those with it. -/
theorem invariant_along {I : List M → σ → Prop} (hstart : I [] m.start)
    (hstep : ∀ past s a s', I past s → m.step s a = some s' → I (past ++ [a]) s') {s : σ}
    {l : List M} (h : m.run l = some s) : I l s := by
  have hrest : ∀ (l past : List M) (u : σ), I past u → m.runFrom u l = some s →
      I (past ++ l) s := by
    intro l
    induction l with
    | nil =>
        intro past u hu hrun
        cases hrun
        rw [List.append_nil]
        exact hu
    | cons a l ih =>
        intro past u hu hrun
        obtain ⟨v, hv, hrun⟩ := runFrom_cons hrun
        rw [List.append_cons]
        exact ih _ v (hstep past u a v hu hv) hrun
  exact hrest l [] m.start hstart h

end Machine

end Concurrency
