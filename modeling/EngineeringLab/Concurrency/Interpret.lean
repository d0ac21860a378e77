/-
Programs in the place of calls.

A program speaks of its calls as single steps, but a call can be a program itself, over
smaller calls: a lookup that is a query, a handler that is whatever was registered.
`interpret` puts those programs in. Seen from above, a call is then a whole run of its
program (`ends_interpret`), so what holds of the runs over the larger calls, for any way of
carrying them out, holds of the program as it is.

`logged` keeps the calls of a run with their answers, for statements about which calls were
made and in which order.

There is one proof for each construct of programs: for a sequence, for a `try`, for a loop
over a list. `attempt` turns an exception of the smaller program into an answer, so that the
larger call can be said to have thrown. The equations between programs are equations of
trees, with nothing about how calls are carried out; only the last part takes a relation of
calls and says how runs correspond.
-/
import EngineeringLab.Concurrency.Prog

set_option autoImplicit false

namespace Concurrency.Prog

variable {C C' : Type} {R : C → Type} {R' : C' → Type} {ε α β γ σ : Type}

/-- Each call carried out by a program. -/
def interpret (f : (c : C) → Prog C' R' ε (R c)) : Prog C R ε α → Prog C' R' ε α
  | ret a => ret a
  | throw e => throw e
  | call c k => f c >>= fun r => interpret f (k r)

/-- The result or the exception, as a result. -/
def attempt : Prog C R ε α → Prog C R ε (Except ε α)
  | ret a => ret (.ok a)
  | throw e => ret (.error e)
  | call c k => call c fun r => attempt (k r)

/-- The result, or the exception thrown. -/
def ofExcept : Except ε α → Prog C R ε α
  | .ok a => ret a
  | .error e => throw e

/-! ## Equations -/

theorem bind_assoc (p : Prog C R ε α) (f : α → Prog C R ε β) (g : β → Prog C R ε γ) :
    (p >>= f >>= g) = p >>= fun a => f a >>= g := by
  induction p with
  | ret a => rfl
  | throw e => rfl
  | call c k ih => exact congrArg (call c) (funext ih)

@[simp] theorem attempt_ofExcept (p : Prog C R ε α) : (attempt p >>= ofExcept) = p := by
  induction p with
  | ret a => rfl
  | throw e => rfl
  | call c k ih => exact congrArg (call c) (funext ih)

theorem attempt_tryCatch (p : Prog C R ε α) (h : ε → Prog C R ε α) :
    (attempt p >>= fun r => tryCatch (ofExcept r) h) = tryCatch p h := by
  induction p with
  | ret a => rfl
  | throw e => rfl
  | call c k ih => exact congrArg (call c) (funext ih)

theorem each_map {δ : Type} (g : δ → β) (f : β → Prog C R ε α) (l : List δ) :
    each (l.map g) f = each l fun d => f (g d) := by
  induction l with
  | nil => rfl
  | cons d l ih =>
      rw [List.map_cons, each, each, ih]

theorem each_congr {l : List β} {f g : β → Prog C R ε α} (h : ∀ b ∈ l, f b = g b) :
    each l f = each l g := by
  induction l with
  | nil => rfl
  | cons b l ih =>
      rw [each, each, h b List.mem_cons_self, ih fun b' hb => h b' (List.mem_cons_of_mem _ hb)]

section

variable {f : (c : C) → Prog C' R' ε (R c)}

theorem interpret_bind (p : Prog C R ε α) (g : α → Prog C R ε β) :
    interpret f (p >>= g) = interpret f p >>= fun a => interpret f (g a) := by
  induction p with
  | ret a => rfl
  | throw e => rfl
  | call c k ih =>
      show (f c >>= fun r => interpret f (k r >>= g)) = _
      rw [funext ih]
      exact (bind_assoc _ _ _).symm

theorem interpret_each (l : List β) (g : β → Prog C R ε α) :
    interpret f (each l g) = each l fun b => interpret f (g b) := by
  induction l with
  | nil => rfl
  | cons b l ih =>
      simp only [each, interpret_bind, ih]
      rfl

end

/-! ## Runs -/

section

variable {exec : σ → (c : C) → R c → σ → Prop} {exec' : σ → (c : C') → R' c → σ → Prop}

@[simp] theorem ends_ret {a : α} {s s' : σ} {o : Except ε α} :
    (ret a : Prog C R ε α).Ends exec s o s' ↔ o = .ok a ∧ s' = s := by
  constructor
  · intro h
    cases h
    exact ⟨rfl, rfl⟩
  · rintro ⟨rfl, rfl⟩
    exact .ret _ _

@[simp] theorem ends_throw {e : ε} {s s' : σ} {o : Except ε α} :
    (throw e : Prog C R ε α).Ends exec s o s' ↔ o = .error e ∧ s' = s := by
  constructor
  · intro h
    cases h
    exact ⟨rfl, rfl⟩
  · rintro ⟨rfl, rfl⟩
    exact .throw _ _

theorem ends_call {c : C} {k : R c → Prog C R ε α} {s s'' : σ} {o : Except ε α} :
    (call c k).Ends exec s o s'' ↔ ∃ r s', exec s c r s' ∧ (k r).Ends exec s' o s'' := by
  constructor
  · intro h
    cases h with
    | call hc hk => exact ⟨_, _, hc, hk⟩
  · rintro ⟨r, s', hc, hk⟩
    exact .call hc hk

/-- A sequence ends where its second part does, or where the first one threw. The induction
is on the first program, whose calls are made either way. -/
theorem ends_bind {p : Prog C R ε α} {f : α → Prog C R ε β} {s s'' : σ} {o : Except ε β} :
    (p >>= f).Ends exec s o s'' ↔
      (∃ a s', p.Ends exec s (.ok a) s' ∧ (f a).Ends exec s' o s'') ∨
        ∃ e, o = .error e ∧ p.Ends exec s (.error e) s'' := by
  induction p generalizing s with
  | ret a =>
      simp only [ret_bind, ends_ret]
      grind
  | throw e =>
      simp only [throw_bind, ends_throw]
      grind
  | call c k ih =>
      simp only [call_bind, ends_call, ih]
      constructor
      · rintro ⟨r, s₁, hc, ⟨a, s', hp, hf⟩ | ⟨e, ho, hp⟩⟩
        · exact .inl ⟨a, s', ⟨r, s₁, hc, hp⟩, hf⟩
        · exact .inr ⟨e, ho, r, s₁, hc, hp⟩
      · rintro (⟨a, s', ⟨r, s₁, hc, hp⟩, hf⟩ | ⟨e, ho, r, s₁, hc, hp⟩)
        · exact ⟨r, s₁, hc, .inl ⟨a, s', hp, hf⟩⟩
        · exact ⟨r, s₁, hc, .inr ⟨e, ho, hp⟩⟩

theorem ends_attempt {p : Prog C R ε α} {s s' : σ} {o : Except ε (Except ε α)} :
    (attempt p).Ends exec s o s' ↔ ∃ r, o = .ok r ∧ p.Ends exec s r s' := by
  induction p generalizing s with
  | ret a =>
      simp only [attempt, ends_ret]
      grind
  | throw e =>
      simp only [attempt, ends_ret, ends_throw]
      grind
  | call c k ih =>
      simp only [attempt, ends_call, ih]
      constructor
      · rintro ⟨r, s₁, hc, r', ho, hp⟩
        exact ⟨r', ho, r, s₁, hc, hp⟩
      · rintro ⟨r', ho, r, s₁, hc, hp⟩
        exact ⟨r, s₁, hc, r', ho, hp⟩

/-- **A call is a run of its program**, if that always comes to a result. -/
theorem ends_interpret {f : (c : C) → Prog C' R' ε (R c)}
    (hf : ∀ c s e s', ¬ (f c).Ends exec' s (.error e) s') {p : Prog C R ε α} {s s' : σ}
    {o : Except ε α} :
    (interpret f p).Ends exec' s o s' ↔
      p.Ends (fun s c r s' => (f c).Ends exec' s (.ok r) s') s o s' := by
  induction p generalizing s with
  | ret a => simp [interpret]
  | throw e => simp [interpret]
  | call c k ih =>
      simp only [interpret, ends_bind, ends_call, ih, hf, and_false, exists_false, or_false]

/-! ## Logs -/

/-- A call together with its answer. -/
abbrev Made (C : Type) (R : C → Type) : Type := (c : C) × R c

/-- The calls carried out as before, and written down in order. -/
def logged (exec : σ → (c : C) → R c → σ → Prop) :
    σ × List (Made C R) → (c : C) → R c → σ × List (Made C R) → Prop :=
  fun s c r s' => exec s.1 c r s'.1 ∧ s'.2 = s.2 ++ [⟨c, r⟩]

/-- Writing the calls down does not change the runs. -/
theorem ends_logged {p : Prog C R ε α} {s s' : σ} {o : Except ε α} (l : List (Made C R)) :
    p.Ends exec s o s' ↔ ∃ l', p.Ends (logged exec) (s, l) o (s', l') := by
  induction p generalizing s l with
  | ret a => simp
  | throw e => simp
  | call c k ih =>
      simp only [ends_call, logged]
      constructor
      · rintro ⟨r, s₁, hc, hk⟩
        obtain ⟨l', hk'⟩ := (ih r (l ++ [⟨c, r⟩])).mp hk
        exact ⟨l', r, (s₁, l ++ [⟨c, r⟩]), ⟨hc, rfl⟩, hk'⟩
      · rintro ⟨l', r, ⟨s₁, l₁⟩, ⟨hc, -⟩, hk⟩
        exact ⟨r, s₁, hc, (ih r l₁).mpr ⟨l', hk⟩⟩

/-- Only calls that the program may make are written down. The induction is on the program,
with the log so far as a parameter. -/
theorem Obeys.logged {P : C → Prop} {Q : α → Prop} {p : Prog C R ε α} (hp : p.Obeys P Q)
    (st : σ × List (Made C R)) :
    p.Always (Prog.logged exec) st fun _ st' =>
      ∃ made, st'.2 = st.2 ++ made ∧ ∀ m ∈ made, P m.1 := by
  induction p generalizing st with
  | ret a => exact ⟨[], (List.append_nil _).symm, fun m hm => by cases hm⟩
  | throw e => exact ⟨[], (List.append_nil _).symm, fun m hm => by cases hm⟩
  | call c k ih =>
      intro r st₁ hcall
      refine (ih r (hp.2 r) st₁).mono fun o st₂ ⟨made, hmade, hall⟩ => ?_
      rw [hcall.2, List.append_assoc] at hmade
      refine ⟨_, hmade, fun m hm => ?_⟩
      rcases List.mem_cons.mp hm with rfl | hm
      · exact hp.1
      · exact hall m hm

/-- A function that carries out the calls, writing them down. -/
def logging (f : (c : C) → σ → R c × σ) (c : C) (st : σ × List (Made C R)) :
    R c × σ × List (Made C R) :=
  ((f c st.1).1, (f c st.1).2, st.2 ++ [⟨c, (f c st.1).1⟩])

theorem ends_logging {f : (c : C) → σ → R c × σ} (hf : ∀ c s, exec s c (f c s).1 (f c s).2)
    (p : Prog C R ε α) (st : σ × List (Made C R)) :
    p.Ends (Prog.logged exec) st (p.run (logging f) st).1 (p.run (logging f) st).2 :=
  Ends.of_run (fun c st => ⟨hf c st.1, rfl⟩) p st

end

end Concurrency.Prog
