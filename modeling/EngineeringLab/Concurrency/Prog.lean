/-
Programs that make atomic calls on a shared state.

A handler of a server is a sequence of calls to something shared (a database, a
cache, a clock) with local computation in between. Local computation cannot be
observed by anyone else, so the only points at which two handlers can interleave
are the calls, and a program is a tree: a result, an exception, or a call with a
continuation on its answer.

This file is the tree, its monad and its sequential meaning: the program alone, to
its end, when a function carries out the calls (`Prog.run`) and when a relation says
what they may do (`Prog.Ends`, with `Prog.Always` for "every run from here").
`Interleave` gives the same tree its concurrent meaning. The call signature, the
error type and the state are parameters.
-/

set_option autoImplicit false

namespace Concurrency

/-- A program over the call signature `(C, R)`: `R c` is the type of the answers
to the call `c`, `ε` the exceptions. -/
inductive Prog (C : Type) (R : C → Type) (ε α : Type) : Type where
  | ret (a : α)
  | throw (e : ε)
  | call (c : C) (k : R c → Prog C R ε α)

namespace Prog

variable {C : Type} {R : C → Type} {ε α β σ : Type}

/-- Sequencing: run the first program, hand its result to the second. -/
def bind : Prog C R ε α → (α → Prog C R ε β) → Prog C R ε β
  | ret a, f => f a
  | throw e, _ => throw e
  | call c k, f => call c (fun r => bind (k r) f)

instance : Monad (Prog C R ε) where
  pure := ret
  bind := bind

@[simp] theorem pure_eq (a : α) : (pure a : Prog C R ε α) = ret a := rfl

@[simp] theorem ret_bind (a : α) (f : α → Prog C R ε β) : (ret a >>= f) = f a := rfl

@[simp] theorem throw_bind (e : ε) (f : α → Prog C R ε β) :
    ((throw e : Prog C R ε α) >>= f) = throw e := rfl

@[simp] theorem call_bind (c : C) (k : R c → Prog C R ε α) (f : α → Prog C R ε β) :
    (call c k >>= f) = call c (fun r => k r >>= f) := rfl

@[simp] theorem bind_ret (p : Prog C R ε α) : (p >>= ret) = p := by
  induction p with
  | ret a => rfl
  | throw e => rfl
  | call c k ih => exact congrArg (call c) (funext ih)

/-- `try { p } catch (e) { h(e) }`. -/
def tryCatch : Prog C R ε α → (ε → Prog C R ε α) → Prog C R ε α
  | ret a, _ => ret a
  | throw e, h => h e
  | call c k, h => call c (fun r => tryCatch (k r) h)

/-- Has the program reached a result or an exception? -/
def finished : Prog C R ε α → Bool
  | ret _ => true
  | throw _ => true
  | call _ _ => false

/-- The result or the exception, once there is one. -/
def outcome : Prog C R ε α → Option (Except ε α)
  | ret a => some (.ok a)
  | throw e => some (.error e)
  | call _ _ => none

theorem eq_ret_of_outcome {p : Prog C R ε α} {a : α} (h : p.outcome = some (.ok a)) :
    p = ret a := by
  cases p <;> simp_all [outcome]

theorem outcome_of_finished {p : Prog C R ε α} (h : p.finished = true) :
    ∃ o, p.outcome = some o := by
  cases p with
  | ret a => exact ⟨_, rfl⟩
  | throw e => exact ⟨_, rfl⟩
  | call c k => cases h

/-- The sequential meaning: every call is carried out by `exec`, and what earlier
calls did to the state stays done when a later one throws. -/
def run (exec : (c : C) → σ → R c × σ) : Prog C R ε α → σ → Except ε α × σ
  | ret a, s => (.ok a, s)
  | throw e, s => (.error e, s)
  | call c k, s => run exec (k (exec c s).1) (exec c s).2

variable (exec : (c : C) → σ → R c × σ)

@[simp] theorem run_ret (a : α) (s : σ) :
    run exec (ret a : Prog C R ε α) s = (.ok a, s) := rfl

@[simp] theorem run_throw (e : ε) (s : σ) :
    run exec (throw e : Prog C R ε α) s = (.error e, s) := rfl

@[simp] theorem run_call (c : C) (k : R c → Prog C R ε α) (s : σ) :
    run exec (call c k) s = run exec (k (exec c s).1) (exec c s).2 := rfl

/-- Running a sequence is running the first part and then, unless it threw, the
second part in the state the first one left. -/
theorem run_bind (p : Prog C R ε α) (f : α → Prog C R ε β) (s : σ) :
    run exec (p >>= f) s = match run exec p s with
      | (.ok a, s') => run exec (f a) s'
      | (.error e, s') => (.error e, s') := by
  induction p generalizing s with
  | ret a => rfl
  | throw e => rfl
  | call c k ih => exact ih _ _

/-- Whatever the answers are, the program makes calls of `P` only, and a result that it
ends with is of `Q`. -/
def Obeys (P : C → Prop) (Q : α → Prop) : Prog C R ε α → Prop
  | ret a => Q a
  | throw _ => True
  | call c k => P c ∧ ∀ r, Obeys P Q (k r)

section

variable {P : C → Prop} {Q : α → Prop} {Q' : β → Prop}

theorem Obeys.mono {p : Prog C R ε α} {Q' : α → Prop} (hp : p.Obeys P Q) (hQ : ∀ a, Q a → Q' a) :
    p.Obeys P Q' := by
  induction p with
  | ret a => exact hQ a hp
  | throw e => trivial
  | call c k ih => exact ⟨hp.1, fun r => ih r (hp.2 r)⟩

theorem obeys_of_forall (hP : ∀ c, P c) (hQ : ∀ a, Q a) (p : Prog C R ε α) : p.Obeys P Q := by
  induction p with
  | ret a => exact hQ a
  | throw e => trivial
  | call c k ih => exact ⟨hP c, ih⟩

/-- The rule of sequencing. -/
theorem Obeys.bind {p : Prog C R ε α} {f : α → Prog C R ε β} (hp : p.Obeys P Q)
    (hf : ∀ a, Q a → (f a).Obeys P Q') : (p >>= f).Obeys P Q' := by
  induction p with
  | ret a => exact hf a hp
  | throw e => trivial
  | call c k ih => exact ⟨hp.1, fun r => ih r (hp.2 r)⟩

/-- The rule of `try`. -/
theorem Obeys.tryCatch {p : Prog C R ε α} {h : ε → Prog C R ε α} (hp : p.Obeys P Q)
    (hh : ∀ e, (h e).Obeys P Q) : (p.tryCatch h).Obeys P Q := by
  induction p with
  | ret a => exact hp
  | throw e => exact hh e
  | call c k ih => exact ⟨hp.1, fun r => ih r (hp.2 r)⟩

end

/-- With some answers, the program calls `c`. -/
def MayCall (c : C) : Prog C R ε α → Prop
  | ret _ => False
  | throw _ => False
  | call c' k => c' = c ∨ ∃ r, MayCall c (k r)

theorem Obeys.of_mayCall {P : C → Prop} {Q : α → Prop} {p : Prog C R ε α} (hp : p.Obeys P Q)
    {c : C} (hc : p.MayCall c) : P c := by
  induction p with
  | ret a => exact hc.elim
  | throw e => exact hc.elim
  | call c' k ih =>
      rcases hc with rfl | ⟨r, hr⟩
      · exact hp.1
      · exact ih r (hp.2 r) hr

/-! ## The calls of a run -/

/-- One call of a run: the states around it, and its answer. -/
structure Event (σ C : Type) (R : C → Type) where
  before : σ
  call : C
  answer : R call
  after : σ

/-- The calls that a run makes, in order. -/
def trace (exec : (c : C) → σ → R c × σ) : Prog C R ε α → σ → List (Event σ C R)
  | ret _, _ => []
  | throw _, _ => []
  | call c k, s => ⟨s, c, (exec c s).1, (exec c s).2⟩ :: trace exec (k (exec c s).1) (exec c s).2

/-- The calls of a sequence are those of the first part and then, unless it threw, those
of the second. -/
theorem trace_bind (p : Prog C R ε α) (f : α → Prog C R ε β) (s : σ) :
    (p >>= f).trace exec s = p.trace exec s ++ match run exec p s with
      | (.ok a, s') => (f a).trace exec s'
      | (.error _, _) => [] := by
  induction p generalizing s with
  | ret a => rfl
  | throw e => rfl
  | call c k ih => exact congrArg _ (ih _ _)

/-- A reflexive and transitive relation that every call of the run respects relates
its ends. -/
theorem run_rel_of_trace (rel : σ → σ → Prop) (hrefl : ∀ s, rel s s)
    (htrans : ∀ {s t u}, rel s t → rel t u → rel s u) {p : Prog C R ε α} {s : σ}
    (h : ∀ ev ∈ p.trace exec s, rel ev.before ev.after) : rel s (run exec p s).2 := by
  induction p generalizing s with
  | ret a => exact hrefl s
  | throw e => exact hrefl s
  | call c k ih =>
      have hfirst := h ⟨s, c, (exec c s).1, (exec c s).2⟩ (by simp [trace])
      exact htrans hfirst (ih _ fun ev hev => h ev (by simp [trace, hev]))

theorem of_mem_trace {p : Prog C R ε α} {s : σ} {ev : Event σ C R} (hev : ev ∈ p.trace exec s) :
    (ev.answer, ev.after) = exec ev.call ev.before := by
  induction p generalizing s with
  | ret a => simp [trace] at hev
  | throw e => simp [trace] at hev
  | call c k ih =>
      rw [trace, List.mem_cons] at hev
      rcases hev with rfl | hev
      · rfl
      · exact ih _ hev

/-- A run makes the calls that the program may make. -/
theorem Obeys.of_mem_trace {P : C → Prop} {Q : α → Prop} {p : Prog C R ε α} (hp : p.Obeys P Q)
    {s : σ} {ev : Event σ C R} (hev : ev ∈ p.trace exec s) : P ev.call := by
  induction p generalizing s with
  | ret a => simp [trace] at hev
  | throw e => simp [trace] at hev
  | call c k ih =>
      rw [trace, List.mem_cons] at hev
      rcases hev with rfl | hev
      · exact hp.1
      · exact ih _ (hp.2 _) hev

/-! ## Loops -/

/-- `for (const a of l) { f(a) }`, keeping the results. -/
def each (l : List β) (f : β → Prog C R ε α) : Prog C R ε (List α) :=
  match l with
  | [] => ret []
  | a :: l => f a >>= fun b => each l f >>= fun bs => ret (b :: bs)

theorem each_ret {l : List β} {f : β → Prog C R ε α} {g : β → α}
    (h : ∀ a ∈ l, f a = ret (g a)) : each l f = ret (l.map g) := by
  induction l with
  | nil => rfl
  | cons a l ih =>
      rw [each, h a (by simp), ih fun b hb => h b (List.mem_cons_of_mem _ hb)]
      rfl

/-- The rule of a loop: every result comes from one of the rounds. -/
theorem Obeys.each {P : C → Prop} {Q : β → α → Prop} {l : List β} {f : β → Prog C R ε α}
    (h : ∀ b ∈ l, (f b).Obeys P (Q b)) :
    (each l f).Obeys P fun results => ∀ a ∈ results, ∃ b ∈ l, Q b a := by
  induction l with
  | nil => exact fun a ha => by cases ha
  | cons b l ih =>
      refine Obeys.bind (h b (by simp)) fun a ha => ?_
      refine Obeys.bind (ih fun c hc => h c (List.mem_cons_of_mem _ hc)) fun results hresults => ?_
      intro a' ha'
      rcases List.mem_cons.mp ha' with rfl | ha'
      · exact ⟨b, by simp, ha⟩
      · obtain ⟨c, hc, hQ⟩ := hresults a' ha'
        exact ⟨c, List.mem_cons_of_mem _ hc, hQ⟩

/-! ## Runs whose calls are given by a relation -/

/-- The program can end in outcome `o` and state `s'`. -/
inductive Ends (exec : σ → (c : C) → R c → σ → Prop) :
    Prog C R ε α → σ → Except ε α → σ → Prop
  | ret (a : α) (s : σ) : Ends exec (ret a) s (.ok a) s
  | throw (e : ε) (s : σ) : Ends exec (throw e) s (.error e) s
  | call {c : C} {k : R c → Prog C R ε α} {s s' s'' : σ} {r : R c} {o : Except ε α}
      (hc : exec s c r s') (hk : Ends exec (k r) s' o s'') : Ends exec (call c k) s o s''

/-- Every run of the program from `s` ends as `Q` says. -/
def Always (exec : σ → (c : C) → R c → σ → Prop) :
    Prog C R ε α → σ → (Except ε α → σ → Prop) → Prop
  | ret a, s, Q => Q (.ok a) s
  | throw e, s, Q => Q (.error e) s
  | call c k, s, Q => ∀ r s', exec s c r s' → Always exec (k r) s' Q

section

variable {step : σ → (c : C) → R c → σ → Prop}

theorem always_iff {p : Prog C R ε α} {s : σ} {Q : Except ε α → σ → Prop} :
    p.Always step s Q ↔ ∀ o s', p.Ends step s o s' → Q o s' := by
  induction p generalizing s with
  | ret a => exact ⟨fun h o s' he => by cases he; exact h, fun h => h _ _ (.ret a s)⟩
  | throw e => exact ⟨fun h o s' he => by cases he; exact h, fun h => h _ _ (.throw e s)⟩
  | call c k ih =>
      constructor
      · intro h o s'' he
        cases he with
        | call hc hk => exact (ih _).mp (h _ _ hc) o s'' hk
      · intro h r s' hc
        exact (ih r).mpr fun o s'' hk => h o s'' (.call hc hk)

theorem Always.mono {p : Prog C R ε α} {s : σ} {Q Q' : Except ε α → σ → Prop}
    (h : p.Always step s Q) (hQ : ∀ o s', Q o s' → Q' o s') : p.Always step s Q' := by
  rw [always_iff] at h ⊢
  exact fun o s' he => hQ o s' (h o s' he)

theorem Always.and {p : Prog C R ε α} {s : σ} {Q Q' : Except ε α → σ → Prop}
    (h : p.Always step s Q) (h' : p.Always step s Q') :
    p.Always step s fun o s' => Q o s' ∧ Q' o s' := by
  rw [always_iff] at h h' ⊢
  exact fun o s' he => ⟨h o s' he, h' o s' he⟩

/-- The rule of sequencing. -/
theorem Always.bind {p : Prog C R ε α} {f : α → Prog C R ε β} {s : σ}
    {Q : Except ε β → σ → Prop}
    (h : p.Always step s fun o s' => match o with
      | .ok a => (f a).Always step s' Q
      | .error e => Q (.error e) s') : (p >>= f).Always step s Q := by
  induction p generalizing s with
  | ret a => exact h
  | throw e => exact h
  | call c k ih => exact fun r s' hc => ih r (h r s' hc)

/-- A transitive relation that both parts of a sequence establish. -/
theorem Always.bind_rel (rel : σ → σ → Prop) (htrans : ∀ {s t u}, rel s t → rel t u → rel s u)
    {p : Prog C R ε α} {f : α → Prog C R ε β} {s : σ} (hp : p.Always step s fun _ t => rel s t)
    (hf : ∀ a t, rel s t → (f a).Always step t fun _ u => rel t u) :
    (p >>= f).Always step s fun _ t => rel s t := by
  refine Always.bind (hp.mono fun o t ht => ?_)
  cases o with
  | error e => exact ht
  | ok a => exact (hf a t ht).mono fun _ u hu => htrans ht hu

/-- The rule of `try`. -/
theorem Always.tryCatch {p : Prog C R ε α} {f : ε → Prog C R ε α} {s : σ}
    {Q : Except ε α → σ → Prop}
    (h : p.Always step s fun o s' => match o with
      | .ok a => Q (.ok a) s'
      | .error e => (f e).Always step s' Q) : (p.tryCatch f).Always step s Q := by
  induction p generalizing s with
  | ret a => exact h
  | throw e => exact h
  | call c k ih => exact fun r s' hc => ih r (h r s' hc)

/-- The rule of a loop: each round keeps `inv`, whether it ends or throws. -/
theorem Always.each (inv : σ → Prop) {l : List β} {f : β → Prog C R ε α} {s : σ} (hs : inv s)
    (h : ∀ a ∈ l, ∀ t, inv t → (f a).Always step t fun _ t' => inv t') :
    (each l f).Always step s fun _ s' => inv s' := by
  induction l generalizing s with
  | nil => exact hs
  | cons a l ih =>
      refine Always.bind ((h a (by simp) s hs).mono fun o s' hs' => ?_)
      cases o with
      | error e => exact hs'
      | ok b =>
          refine Always.bind ((ih hs' fun c hc => h c (List.mem_cons_of_mem _ hc)).mono ?_)
          intro o s'' hs''
          cases o <;> exact hs''

/-- A run that a function carries out is a run, if each of its calls is one that the
relation allows. -/
theorem Ends.of_trace {exec : (c : C) → σ → R c × σ} {p : Prog C R ε α} {s : σ}
    (h : ∀ ev ∈ p.trace exec s, step ev.before ev.call ev.answer ev.after) :
    p.Ends step s (p.run exec s).1 (p.run exec s).2 := by
  induction p generalizing s with
  | ret a => exact .ret a s
  | throw e => exact .throw e s
  | call c k ih =>
      have hfirst := h ⟨s, c, (exec c s).1, (exec c s).2⟩ (by simp [trace])
      exact .call hfirst (ih _ fun ev hev => h ev (by simp [trace, hev]))

/-- So it is if the function does nothing else. -/
theorem Ends.of_run {exec : (c : C) → σ → R c × σ}
    (hexec : ∀ c s, step s c (exec c s).1 (exec c s).2) (p : Prog C R ε α) (s : σ) :
    p.Ends step s (p.run exec s).1 (p.run exec s).2 := by
  refine Ends.of_trace fun ev hev => ?_
  have hev := of_mem_trace exec hev
  rw [(Prod.mk.inj hev).1, (Prod.mk.inj hev).2]
  exact hexec _ _

end

end Prog

end Concurrency
