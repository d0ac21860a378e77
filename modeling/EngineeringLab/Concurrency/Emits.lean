/-
What programs emit.

Some calls of a program leave marks: a counter goes up, a line is logged, a check is passed. The
marks of its calls, in order, are what the program emits. `Prog.Emits` bounds that for all answers
its calls may get: `during` holds of what it has emitted whenever it is about to call, and `after`
of what it has emitted, and of its outcome, when it ends. There is a rule for each way in which
programs are put together, and one for systems: at any moment of any run the calls that a request
has made are marked as its program allows (`System.Reach.emits`).

The bound is a condition on lists, so it can say in which order the marks come, and how
often. From the bounds of the single requests follow two facts about a whole run: a counter
that goes up at one kind of mark has counted those of all requests (`System.Reach.counted`),
and a list that grows by another is theirs in some order (`System.Reach.recorded`). Both
need no invariant about the state, because the marks are kept in the ghost history of each
request.
-/
import EngineeringLab.Concurrency.Schedule

set_option autoImplicit false

namespace Concurrency

variable {C C' : Type} {R : C → Type} {R' : C' → Type} {ε ε' α β μ : Type}

namespace Prog

/-- After the marks `l`, the program calls only where `during` holds of all marks so far, and
ends only where `after` does. -/
def Emits (mark : Made C R → List μ) (during : List μ → Prop) :
    Prog C R ε α → List μ → (Except ε α → List μ → Prop) → Prop
  | ret a, l, after => after (.ok a) l
  | throw e, l, after => after (.error e) l
  | call c k, l, after => during l ∧ ∀ r, Emits mark during (k r) (l ++ mark ⟨c, r⟩) after

section

variable {mark : Made C R → List μ} {during : List μ → Prop} {l : List μ}

theorem Emits.mono {p : Prog C R ε α} {after after' : Except ε α → List μ → Prop}
    (h : p.Emits mark during l after) (hafter : ∀ o l', after o l' → after' o l') :
    p.Emits mark during l after' := by
  induction p generalizing l with
  | ret a => exact hafter _ _ h
  | throw e => exact hafter _ _ h
  | call c k ih => exact ⟨h.1, fun r => ih r (h.2 r)⟩

theorem Emits.mono_during {during' : List μ → Prop} {p : Prog C R ε α}
    {after : Except ε α → List μ → Prop} (h : p.Emits mark during l after)
    (hdur : ∀ l', during l' → during' l') : p.Emits mark during' l after := by
  induction p generalizing l with
  | ret a => exact h
  | throw e => exact h
  | call c k ih => exact ⟨hdur l h.1, fun r => ih r (h.2 r)⟩

/-- The rule of sequencing. -/
theorem Emits.bind {p : Prog C R ε α} {f : α → Prog C R ε β}
    {after : Except ε β → List μ → Prop}
    (h : p.Emits mark during l fun o l' => match o with
      | .ok a => (f a).Emits mark during l' after
      | .error e => after (.error e) l') : (p >>= f).Emits mark during l after := by
  induction p generalizing l with
  | ret a => exact h
  | throw e => exact h
  | call c k ih => exact ⟨h.1, fun r => ih r (h.2 r)⟩

/-- The rule of invariants: whatever the program may call keeps it. -/
theorem Obeys.emits {P : C → Prop} {Q : α → Prop} {inv : List μ → Prop} {p : Prog C R ε α}
    (hp : p.Obeys P Q) (hl : inv l) (hdur : ∀ l', inv l' → during l')
    (hstep : ∀ c, P c → ∀ r l', inv l' → inv (l' ++ mark ⟨c, r⟩)) :
    p.Emits mark during l fun o l' => inv l' ∧ ∀ a, o = .ok a → Q a := by
  induction p generalizing l with
  | ret a => exact ⟨hl, by rintro _ ⟨⟩; exact hp⟩
  | throw e => exact ⟨hl, by rintro _ ⟨⟩⟩
  | call c k ih => exact ⟨hdur l hl, fun r => ih r (hp.2 r) (hstep c hp.1 r l hl)⟩

/-- A program none of whose calls leaves a mark. -/
theorem Obeys.emits_nothing {P : C → Prop} {Q : α → Prop} {p : Prog C R ε α} (hp : p.Obeys P Q)
    (hsilent : ∀ c, P c → ∀ r, mark ⟨c, r⟩ = []) (hl : during l) :
    p.Emits mark during l fun o l' => l' = l ∧ ∀ a, o = .ok a → Q a := by
  refine hp.emits rfl (fun l' h => ?_) fun c hc r l' h => ?_
  · rwa [h]
  · rw [hsilent c hc r, List.append_nil, h]

/-- A program of which nothing is known, where no mark does any harm. -/
theorem emits_append (hdur : ∀ x, during (l ++ x)) (p : Prog C R ε α) :
    p.Emits mark during l fun _ l' => ∃ x, l' = l ++ x := by
  have hany : p.Obeys (fun _ => True) fun _ => True :=
    obeys_of_forall (fun _ => trivial) (fun _ => trivial) p
  have hinv : p.Emits mark during l fun o l' => (∃ x, l' = l ++ x) ∧ ∀ a, o = .ok a → True := by
    refine hany.emits ⟨[], (List.append_nil l).symm⟩ ?_ ?_
    · rintro l' ⟨x, rfl⟩
      exact hdur x
    · rintro c - r l' ⟨x, rfl⟩
      exact ⟨x ++ mark ⟨c, r⟩, List.append_assoc _ _ _⟩
  exact hinv.mono fun o l' h => h.1

/-- Programs in the place of calls, each leaving the mark of its call. -/
theorem Emits.interpret {mark' : Made C' R' → List μ} {f : (c : C) → Prog C' R' ε (R c)}
    (hf : ∀ c l, during l → (f c).Emits mark' during l fun o l' =>
      ∃ r, o = .ok r ∧ l' = l ++ mark ⟨c, r⟩)
    {p : Prog C R ε α} {after : Except ε α → List μ → Prop} (h : p.Emits mark during l after) :
    (p.interpret f).Emits mark' during l after := by
  induction p generalizing l with
  | ret a => exact h
  | throw e => exact h
  | call c k ih =>
      refine Emits.bind ((hf c l h.1).mono ?_)
      rintro o l' ⟨r, rfl, rfl⟩
      exact ih r (h.2 r)

/-! ## Other exceptions -/

/-- The program with its exceptions translated. -/
def mapThrow (f : ε → ε') : Prog C R ε α → Prog C R ε' α
  | ret a => ret a
  | throw e => throw (f e)
  | call c k => call c fun r => mapThrow f (k r)

theorem Emits.mapThrow {f : ε → ε'} {p : Prog C R ε α} {after : Except ε' α → List μ → Prop}
    (h : p.Emits mark during l fun o => after (o.mapError f)) :
    (p.mapThrow f).Emits mark during l after := by
  induction p generalizing l with
  | ret a => exact h
  | throw e => exact h
  | call c k ih => exact ⟨h.1, fun r => ih r (h.2 r)⟩

/-- A program that throws nothing ends with a result. -/
theorem Emits.noThrow {p : Prog C R Empty α} {after : Except Empty α → List μ → Prop}
    (h : p.Emits mark during l after) :
    (p.mapThrow Empty.elim : Prog C R ε α).Emits mark during l fun o l' =>
      ∃ a, o = .ok a ∧ after (.ok a) l' := by
  apply Emits.mapThrow
  refine h.mono fun o l' hafter => ?_
  cases o with
  | ok a => exact ⟨a, rfl, hafter⟩
  | error e => exact e.elim

theorem Obeys.mapThrow {P : C → Prop} {Q : α → Prop} {f : ε → ε'} {p : Prog C R ε α}
    (h : p.Obeys P Q) : (p.mapThrow f).Obeys P Q := by
  induction p with
  | ret a => exact h
  | throw e => trivial
  | call c k ih => exact ⟨h.1, fun r => ih r (h.2 r)⟩

/-! ## Along a run -/

/-- What is known of the marks `l` where this program is what is left. -/
def Emitted (during : List μ → Prop) (after : Except ε α → List μ → Prop) :
    Prog C R ε α → List μ → Prop
  | ret a, l => after (.ok a) l
  | throw e, l => after (.error e) l
  | call _ _, l => during l

theorem Emits.leads {p p' : Prog C R ε α} {made : List (Made C R)}
    {after : Except ε α → List μ → Prop} (h : p.Emits mark during l after)
    (hlead : Leads p made p') : p'.Emitted during after (l ++ made.flatMap mark) := by
  induction hlead generalizing l with
  | refl p =>
      rw [List.flatMap_nil, List.append_nil]
      cases p with
      | ret a => exact h
      | throw e => exact h
      | call c k => exact h.1
  | call _ ih =>
      rw [List.flatMap_cons, ← List.append_assoc]
      exact ih (h.2 _)

end

end Prog

/-! ## Requests of a system -/

section

variable {σ Q : Type} {S : System σ Q C R ε α} {mark : Prog.Made C R → List μ}
  {during : Q → List μ → Prop} {after : Q → Except ε α → List μ → Prop}

/-- The marks of the calls that a request has made. -/
def Thread.marks (mark : Prog.Made C R → List μ) (t : Thread σ Q C R ε α) : List μ :=
  t.past.calls.reverse.flatMap mark

/-- **What requests emit**, ended or not, in every run. -/
theorem System.Reach.emits (hbody : ∀ q, (S.body q).Emits mark (during q) [] (after q))
    {ok : Q → History σ C R → (c : C) → R c → σ → Prop} {e : σ} {w : World σ Q C R ε α}
    (hw : S.Reach ok e w) {t : Thread σ Q C R ε α} (ht : t ∈ w.threads) :
    t.prog.Emitted (during t.req) (after t.req) (t.marks mark) := by
  have hleft := (hbody t.req).leads (hw.leads t ht)
  rwa [List.nil_append] at hleft

/-- The marks of all requests. -/
def World.marks (mark : Prog.Made C R → List μ) (w : World σ Q C R ε α) : List μ :=
  w.threads.flatMap (·.marks mark)

theorem World.marks_perm (w : World σ Q C R ε α) : (w.calls.flatMap mark).Perm (w.marks mark) := by
  rw [World.calls, List.flatMap_assoc]
  apply List.Perm.flatMap_left
  intro t _
  exact (List.reverse_perm _).symm.flatMap_right mark

/-- **A counter of marks** counts those of all requests. -/
theorem System.Reach.counted [DecidableEq μ] {m : μ} {count : σ → ℕ}
    (hcall : ∀ e c r e', S.exec e c r e' → count e' = count e + (mark ⟨c, r⟩).count m)
    (hdrift : ∀ e e', S.drift e e' → count e' = count e)
    {ok : Q → History σ C R → (c : C) → R c → σ → Prop} {e : σ} {w : World σ Q C R ε α}
    (hw : S.Reach ok e w) : count w.env = count e + (w.marks mark).count m := by
  let weight : (c : C) × R c → ℕ := fun x => (mark x).count m
  have hweight : ∀ e c r e', S.exec e c r e' → count e' = count e + weight ⟨c, r⟩ := hcall
  have hmarks : (w.calls.flatMap mark).count m = (w.marks mark).count m :=
    w.marks_perm.count_eq m
  rw [hw.total hweight hdrift, World.total_eq, ← hmarks, List.count_flatMap]
  rfl

/-- **A list of marks**, here of what `f` makes of them, has those of all requests, in some
order. -/
theorem System.Reach.recorded {β : Type} {f : μ → Option β} {record : σ → List β}
    (hcall : ∀ e c r e', S.exec e c r e' → record e' = record e ++ (mark ⟨c, r⟩).filterMap f)
    (hdrift : ∀ e e', S.drift e e' → record e' = record e)
    {ok : Q → History σ C R → (c : C) → R c → σ → Prop} {e : σ} {w : World σ Q C R ε α}
    (hw : S.Reach ok e w) : (record w.env).Perm (record e ++ (w.marks mark).filterMap f) := by
  let weight : (c : C) × R c → List β := fun x => (mark x).filterMap f
  have hweight : ∀ e c r e', S.exec e c r e' → record e' = record e ++ weight ⟨c, r⟩ := hcall
  have hperm := hw.collected hweight hdrift
  rw [← List.filterMap_flatMap] at hperm
  exact hperm.trans ((w.marks_perm.filterMap f).append_left _)

end

/-! ## Counting by kind -/

section

variable [DecidableEq μ] {l : List α} {f : α → List μ} {m : μ} {p q : α → Bool}

/-- At most one mark for each element of one of two kinds, and none for the others. -/
theorem count_flatMap_le
    (h : ∀ a ∈ l, (f a).count m ≤ (if p a then 1 else 0) + if q a then 1 else 0) :
    (l.flatMap f).count m ≤ l.countP p + l.countP q := by
  induction l with
  | nil => simp
  | cons a l ih =>
      have ha := h a List.mem_cons_self
      have hl := ih fun b hb => h b (List.mem_cons_of_mem _ hb)
      rw [List.flatMap_cons, List.count_append, List.countP_cons, List.countP_cons]
      omega

/-- At least one mark for each element of a kind that is not of another. -/
theorem countP_le_count_flatMap
    (h : ∀ a ∈ l, (if p a then 1 else 0) ≤ (f a).count m + if q a then 1 else 0) :
    l.countP p ≤ (l.flatMap f).count m + l.countP q := by
  induction l with
  | nil => simp
  | cons a l ih =>
      have ha := h a List.mem_cons_self
      have hl := ih fun b hb => h b (List.mem_cons_of_mem _ hb)
      rw [List.flatMap_cons, List.count_append, List.countP_cons, List.countP_cons]
      omega

/-- Nowhere more marks of one sort than of another. -/
theorem count_flatMap_le_count {m' : μ} (h : ∀ a ∈ l, (f a).count m ≤ (f a).count m') :
    (l.flatMap f).count m ≤ (l.flatMap f).count m' := by
  induction l with
  | nil => simp
  | cons a l ih =>
      have ha := h a List.mem_cons_self
      have hl := ih fun b hb => h b (List.mem_cons_of_mem _ hb)
      rw [List.flatMap_cons, List.count_append, List.count_append]
      omega

end

end Concurrency
