/-
What requests call, whatever the others do.

Two things about a server need no rely: what a request that has ended has called
(`Contract.own`: the program is followed call by call, and the others only make the history
longer), and what a run is for the environment, which is the calls of all requests one after
the other (`System.Reach.logged`). So a count that every call changes by an amount of its own
is what the calls of all requests add up to (`System.Reach.total`).
-/
import EngineeringLab.Concurrency.Interleave
import Mathlib.Algebra.BigOperators.Group.List.Basic
import Mathlib.Algebra.GroupWithZero.Nat

set_option autoImplicit false

namespace Concurrency

variable {σ Q C : Type} {R : C → Type} {ε α : Type}

/-! ## A request that has ended -/

namespace Contract

/-- Nothing is relied on and nothing guaranteed; a request that ends does so as `post` says. -/
def own (S : System σ Q C R ε α) (post : Q → Except ε α → History σ C R → Prop) : Contract S where
  inv _ := True
  rely _ _ := True
  pre _ _ := True
  ok := anyCall
  guar _ _ _ _ _ := True
  post := post

section

variable {S : System σ Q C R ε α} {post : Q → Except ε α → History σ C R → Prop}

/-- The next call of a program: after any steps of others, with any answer. -/
theorem along_call {q : Q} {β : Type} {c : C} {k : R c → Prog C R ε β} {h : History σ C R}
    {post' : Except ε β → History σ C R → Prop}
    (hk : ∀ r h', h'.calls = ⟨c, r⟩ :: h.calls → (own S post).Along q (k r) h' post') :
    (own S post).Along q (.call c k) h post' := by
  intro h' hx _ r e _ _
  refine ⟨trivial, hk r _ ?_⟩
  rw [History.calls_own, hx.calls_eq]

/-- A request of which nothing is asked. -/
theorem along_of_post {q : Q} {β : Type} {p : Prog C R ε β} {h : History σ C R}
    {post' : Except ε β → History σ C R → Prop} (hpost : ∀ o h, post' o h) :
    (own S post).Along q p h post' := by
  induction p generalizing h with
  | ret a => exact hpost _ _
  | throw x => exact hpost _ _
  | call c k ih => exact along_call fun r h' _ => ih r

theorem own_holds (hbody : ∀ q e, (own S post).Safe q (S.body q) (.start e)) :
    (own S post).Holds where
  drift _ _ _ _ := ⟨trivial, trivial⟩
  call _ _ _ _ _ _ _ _ := ⟨trivial, trivial, fun _ _ => trivial⟩
  arrive _ _ _ _ := trivial
  body q e _ _ := hbody q e

/-- Every request that has ended, in every run, has done so as `post` says. -/
theorem own_sound (hbody : ∀ q e, (own S post).Safe q (S.body q) (.start e)) {e : σ}
    {w : World σ Q C R ε α} (hw : S.Reach anyCall e w) {t : Thread σ Q C R ε α}
    (ht : t ∈ w.threads) {o : Except ε α} (ho : t.prog.outcome = some o) :
    post t.req o t.past := by
  cases hprog : t.prog with
  | ret a =>
      rw [hprog] at ho
      cases ho
      exact sound_post (own_holds hbody) trivial hw ht hprog
  | throw x =>
      rw [hprog] at ho
      cases ho
      exact sound_throw (own_holds hbody) trivial hw ht hprog
  | call c k =>
      rw [hprog] at ho
      cases ho

end

end Contract

/-! ## The log of a run -/

/-- What the environment goes through: the calls, with their answers, in the order in which
they are made, and its own moves between them. -/
inductive System.Logged (S : System σ Q C R ε α) : σ → List ((c : C) × R c) → σ → Prop
  | nil (e : σ) : Logged S e [] e
  | drift {e e' e'' : σ} {log : List ((c : C) × R c)} (hd : S.drift e e')
      (hrest : Logged S e' log e'') : Logged S e log e''
  | call {e e' e'' : σ} {c : C} {r : R c} {log : List ((c : C) × R c)} (he : S.exec e c r e')
      (hrest : Logged S e' log e'') : Logged S e (⟨c, r⟩ :: log) e''

section

variable {S : System σ Q C R ε α}

theorem System.Logged.trans {e e' e'' : σ} {log log' : List ((c : C) × R c)}
    (h : S.Logged e log e') (h' : S.Logged e' log' e'') : S.Logged e (log ++ log') e'' := by
  induction h with
  | nil => exact h'
  | drift hd _ ih => exact .drift hd (ih h')
  | call he _ ih => exact .call he (ih h')

/-- What all requests have called. -/
def World.calls (w : World σ Q C R ε α) : List ((c : C) × R c) :=
  w.threads.flatMap fun t => t.past.calls

theorem Thread.calls_see (t : Thread σ Q C R ε α) (e : σ) :
    (t.see e).past.calls = t.past.calls := by
  unfold Thread.see
  split <;> rfl

/-- The others see a step; their calls stay. -/
theorem flatMap_calls_see (l : List (Thread σ Q C R ε α)) (e : σ) :
    ((l.map (·.see e)).flatMap fun t => t.past.calls) = l.flatMap fun t => t.past.calls := by
  induction l with
  | nil => rfl
  | cons t l ih => rw [List.map_cons, List.flatMap_cons, List.flatMap_cons, ih, t.calls_see]

/-- Adding `b` to what one element of a list yields adds it to what the list yields. -/
theorem flatMap_set_perm {β γ : Type} {f : β → List γ} {l : List β} {i : ℕ} {a a' : β} {b : γ}
    (h : l[i]? = some a) (hf : f a' = b :: f a) :
    ((l.set i a').flatMap f).Perm (b :: l.flatMap f) := by
  induction l generalizing i with
  | nil => cases h
  | cons x l ih =>
      cases i with
      | zero =>
          rw [List.getElem?_cons_zero, Option.some.injEq] at h
          rw [List.set_cons_zero, List.flatMap_cons, List.flatMap_cons, hf, h, List.cons_append]
      | succ i =>
          rw [List.getElem?_cons_succ] at h
          rw [List.set_cons_succ, List.flatMap_cons, List.flatMap_cons]
          exact ((ih h).append_left (f x)).trans List.perm_middle

/-- A request's call is one call more. -/
theorem World.calls_advance {w : World σ Q C R ε α} {i : ℕ} {t : Thread σ Q C R ε α} {c : C}
    {k : R c → Prog C R ε α} {r : R c} {e : σ} (ht : w.threads[i]? = some t) :
    (⟨e, S.advance w i t c k r e⟩ : World σ Q C R ε α).calls.Perm (⟨c, r⟩ :: w.calls) := by
  have hspawn : ((S.spawn c).map (S.opened e)).flatMap (fun t => t.past.calls) = [] := by
    rw [List.flatMap_eq_nil_iff]
    rintro t' ht'
    obtain ⟨q, -, rfl⟩ := List.mem_map.mp ht'
    rfl
  have hthis : (w.threads.map (·.see e))[i]? = some (t.see e) := by
    rw [List.getElem?_map, ht]
    rfl
  rw [World.calls, System.advance, List.flatMap_append, hspawn, List.append_nil]
  have hcalls : (History.own t.past c r e).calls = ⟨c, r⟩ :: (t.see e).past.calls := by
    rw [t.calls_see, History.calls_own]
  refine (flatMap_set_perm hthis hcalls).trans ?_
  rw [flatMap_calls_see, World.calls]

/-- **A run is one sequence of calls**: for the environment, what the requests have called
between them was called one after the other. -/
theorem System.Reach.logged {ok : Q → History σ C R → (c : C) → R c → σ → Prop} {e : σ}
    {w : World σ Q C R ε α} (hw : S.Reach ok e w) :
    ∃ log, log.Perm w.calls ∧ S.Logged e log w.env := by
  unfold System.Reach at hw
  induction hw with
  | refl => exact ⟨[], .refl _, .nil e⟩
  | @tail u v _ hstep ih =>
      obtain ⟨log, hperm, hlog⟩ := ih
      cases hstep with
      | arrive hq =>
          refine ⟨log, ?_, hlog⟩
          rw [World.calls, List.flatMap_append]
          exact hperm.trans (by simp [World.calls, System.opened, History.calls])
      | @drift e' hd =>
          have hafter := hlog.trans (.drift hd (.nil e'))
          rw [List.append_nil] at hafter
          refine ⟨log, ?_, hafter⟩
          rw [World.calls, flatMap_calls_see]
          exact hperm
      | @call i t c k r e' ht hp he hok =>
          refine ⟨log ++ [⟨c, r⟩], ?_, hlog.trans (.call he (.nil e'))⟩
          refine (List.perm_append_singleton _ log).trans ?_
          exact (hperm.cons _).trans (World.calls_advance ht).symm

end

/-! ## Adding up -/

section

variable {weight : ((c : C) × R c) → ℕ}

/-- What the request's own calls amount to. -/
def History.total (weight : ((c : C) × R c) → ℕ) (h : History σ C R) : ℕ :=
  (h.calls.map weight).sum

theorem History.total_of_calls {h h' : History σ C R} {x : (c : C) × R c}
    (hcalls : h'.calls = x :: h.calls) : h'.total weight = weight x + h.total weight := by
  rw [History.total, hcalls]
  rfl

/-- What the calls of all requests amount to. -/
def World.total (weight : ((c : C) × R c) → ℕ) (w : World σ Q C R ε α) : ℕ :=
  (w.threads.map fun t => t.past.total weight).sum

theorem World.total_eq (w : World σ Q C R ε α) : w.total weight = (w.calls.map weight).sum := by
  unfold World.total World.calls
  induction w.threads with
  | nil => rfl
  | cons t l ih =>
      rw [List.map_cons, List.sum_cons, ih, List.flatMap_cons, List.map_append, List.sum_append]
      rfl

variable {S : System σ Q C R ε α} {μ : σ → ℕ}

theorem System.Logged.total (hcall : ∀ e c r e', S.exec e c r e' → μ e' = μ e + weight ⟨c, r⟩)
    (hdrift : ∀ e e', S.drift e e' → μ e' = μ e) {e e' : σ} {log : List ((c : C) × R c)}
    (hlog : S.Logged e log e') : μ e' = μ e + (log.map weight).sum := by
  induction hlog with
  | nil => simp
  | drift hd _ ih => rw [ih, hdrift _ _ hd]
  | call he _ ih =>
      rw [ih, hcall _ _ _ _ he, List.map_cons, List.sum_cons]
      omega

/-- **A quantity that calls change by their weight, and nothing else changes**, is what it was
and what the calls of all requests amount to. -/
theorem System.Reach.total (hcall : ∀ e c r e', S.exec e c r e' → μ e' = μ e + weight ⟨c, r⟩)
    (hdrift : ∀ e e', S.drift e e' → μ e' = μ e)
    {ok : Q → History σ C R → (c : C) → R c → σ → Prop} {e : σ} {w : World σ Q C R ε α}
    (hw : S.Reach ok e w) : μ w.env = μ e + w.total weight := by
  obtain ⟨log, hperm, hlog⟩ := hw.logged
  rw [hlog.total hcall hdrift, (hperm.map weight).sum_eq, World.total_eq]

end

/-! ## Collecting -/

section

variable {S : System σ Q C R ε α} {β : Type} {weight : ((c : C) × R c) → List β}
  {μ : σ → List β}

theorem System.Logged.collected
    (hcall : ∀ e c r e', S.exec e c r e' → μ e' = μ e ++ weight ⟨c, r⟩)
    (hdrift : ∀ e e', S.drift e e' → μ e' = μ e) {e e' : σ} {log : List ((c : C) × R c)}
    (hlog : S.Logged e log e') : μ e' = μ e ++ log.flatMap weight := by
  induction hlog with
  | nil => simp
  | drift hd _ ih => rw [ih, hdrift _ _ hd]
  | call he _ ih => rw [ih, hcall _ _ _ _ he, List.flatMap_cons, List.append_assoc]

/-- **A list that calls add to**, each at its end, holds what it held and what the calls of all
requests have added, in some order. -/
theorem System.Reach.collected
    (hcall : ∀ e c r e', S.exec e c r e' → μ e' = μ e ++ weight ⟨c, r⟩)
    (hdrift : ∀ e e', S.drift e e' → μ e' = μ e)
    {ok : Q → History σ C R → (c : C) → R c → σ → Prop} {e : σ} {w : World σ Q C R ε α}
    (hw : S.Reach ok e w) : (μ w.env).Perm (μ e ++ w.calls.flatMap weight) := by
  obtain ⟨log, hperm, hlog⟩ := hw.logged
  rw [hlog.collected hcall hdrift]
  exact (hperm.flatMap_right weight).append_left (μ e)

/-- A request calls what its program may call, also while it is under way. -/
theorem System.Reach.obeyed {P : Q → C → Prop}
    (hbody : ∀ q, (S.body q).Obeys (P q) fun _ => True)
    {ok : Q → History σ C R → (c : C) → R c → σ → Prop} {e : σ} {w : World σ Q C R ε α}
    (hw : S.Reach ok e w) : ∀ t ∈ w.threads, ∀ x ∈ t.past.calls, P t.req x.1 := by
  -- what is left of a program must obey too, or the induction has nothing to go on
  suffices h : ∀ t ∈ w.threads,
      t.prog.Obeys (P t.req) (fun _ => True) ∧ ∀ x ∈ t.past.calls, P t.req x.1 from
    fun t ht => (h t ht).2
  unfold System.Reach at hw
  induction hw with
  | refl => exact fun t ht => by cases ht
  | @tail u v _ hstep ih =>
      have hopened : ∀ e q, (S.opened e q).prog.Obeys (P q) (fun _ => True) ∧
          ∀ x ∈ (S.opened e q).past.calls, P q x.1 :=
        fun e q => ⟨hbody q, fun x hx => by cases hx⟩
      have hsee : ∀ e, ∀ t ∈ u.threads.map (·.see e),
          t.prog.Obeys (P t.req) (fun _ => True) ∧ ∀ x ∈ t.past.calls, P t.req x.1 := by
        intro e t ht
        obtain ⟨t₀, ht₀, rfl⟩ := List.mem_map.mp ht
        rw [t₀.calls_see, t₀.req_see]
        refine ⟨?_, (ih t₀ ht₀).2⟩
        unfold Thread.see
        split
        · exact (ih t₀ ht₀).1
        · exact (ih t₀ ht₀).1
      intro t ht
      cases hstep with
      | arrive hq =>
          rcases List.mem_append.mp ht with h | h
          · exact ih t h
          · rw [List.mem_singleton.mp h]
            exact hopened _ _
      | drift he => exact hsee _ t ht
      | @call i t₁ c k r e' ht₁ hp he hok =>
          rcases List.mem_append.mp ht with h | h
          · rcases List.mem_or_eq_of_mem_set h with h | rfl
            · exact hsee _ t h
            · -- the thread that moves: its new call is its program's next one
              obtain ⟨hprog, hcalls⟩ := ih t₁ (List.mem_of_getElem? ht₁)
              rw [hp] at hprog
              refine ⟨hprog.2 r, fun x hx => ?_⟩
              rw [History.calls_own] at hx
              rcases List.mem_cons.mp hx with rfl | hx
              · exact hprog.1
              · exact hcalls x hx
          · -- a request that the call has started
            obtain ⟨q, -, rfl⟩ := List.mem_map.mp h
            exact hopened _ _

end

end Concurrency
