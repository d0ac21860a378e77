/-
Who called what, and when.

A run of a system is more than where it ends. `System.Scheduled` keeps the calls of a run in
the order in which they were made, each with the request that made it. A request's own calls
are its part of that list (`Scheduled.calls_eq`), the environment went through the list as a
whole (`Scheduled.logged`), and every request is where its answers have led its program
(`Reach.leads`).

Two views of a run come together here. For one request, a run is its own program with the
answers that it got (`Prog.Leads`), and it does not matter when it got them. For the
environment, a run is one list of calls, and it does not matter who made them. The list of
pairs has both: filtered by a request it is the first, without the requests it is the
second.

Every reachable world has such a list (`Reach.scheduled`), and every list that a run has
been through leads to a reachable world (`Scheduled.reach`). So a theorem about a given
order of calls, as about two servers that take the same requests in the same order, is a
theorem about runs.
-/
import EngineeringLab.Concurrency.Interpret
import EngineeringLab.Concurrency.OwnCalls

set_option autoImplicit false

namespace Concurrency

variable {σ Q C : Type} {R : C → Type} {ε α : Type}

/-! ## Where answers lead -/

/-- After these calls, answered so, the first program has become the second. -/
inductive Prog.Leads : Prog C R ε α → List (Prog.Made C R) → Prog C R ε α → Prop
  | refl (p : Prog C R ε α) : Leads p [] p
  | call {c : C} {k : R c → Prog C R ε α} {r : R c} {made : List (Prog.Made C R)}
      {p : Prog C R ε α} (h : Leads (k r) made p) : Leads (.call c k) (⟨c, r⟩ :: made) p

namespace Prog

theorem Leads.snoc {p : Prog C R ε α} {made : List (Made C R)} {c : C} {k : R c → Prog C R ε α}
    (h : Leads p made (.call c k)) (r : R c) : Leads p (made ++ [⟨c, r⟩]) (k r) := by
  generalize hq : Prog.call c k = q at h
  induction h with
  | refl p =>
      subst hq
      exact .call (.refl _)
  | call _ ih => exact .call (ih hq)

/-- Only calls that the program may make are made on the way. -/
theorem Obeys.leads {P : C → Prop} {Q : α → Prop} {p p' : Prog C R ε α}
    {made : List (Made C R)} (hp : p.Obeys P Q) (h : Leads p made p') : ∀ m ∈ made, P m.1 := by
  induction h with
  | refl p => exact fun m hm => by cases hm
  | call _ ih =>
      intro m hm
      rcases List.mem_cons.mp hm with rfl | hm
      · exact hp.1
      · exact ih (hp.2 _) m hm

end Prog

variable {S : System σ Q C R ε α}

/-! ## One step of the threads -/

/-- What a call leaves at an index: the caller, another request, or a new one. -/
theorem System.advance_cases {w : World σ Q C R ε α} {i j : ℕ} {t t' : Thread σ Q C R ε α} {c : C}
    {k : R c → Prog C R ε α} {r : R c} {e : σ} (ht : w.threads[j]? = some t)
    (ht' : (S.advance w j t c k r e)[i]? = some t') :
    (i = j ∧ t' = ⟨t.req, k r, .own t.past c r e⟩) ∨
      (i ≠ j ∧ ∃ t₀, w.threads[i]? = some t₀ ∧ t' = t₀.see e) ∨
      (w.threads.length ≤ i ∧ ∃ q ∈ S.spawn c, t' = S.opened e q) := by
  obtain ⟨hlt, -⟩ := List.getElem?_eq_some_iff.mp ht
  unfold System.advance at ht'
  rw [List.getElem?_append] at ht'
  split at ht'
  · by_cases hij : i = j
    · subst hij
      rw [List.getElem?_set_self (by simpa using hlt)] at ht'
      exact .inl ⟨rfl, (Option.some.inj ht').symm⟩
    · rw [List.getElem?_set_ne (Ne.symm hij), List.getElem?_map] at ht'
      obtain ⟨t₀, ht₀, rfl⟩ := Option.map_eq_some_iff.mp ht'
      exact .inr (.inl ⟨hij, t₀, ht₀, rfl⟩)
  · rename_i hout
    rw [List.length_set, List.length_map, Nat.not_lt] at hout
    obtain ⟨q, hq, rfl⟩ := List.mem_map.mp (List.mem_of_getElem? ht')
    exact .inr (.inr ⟨hout, q, hq, rfl⟩)

/-- Every request is where its answers have led its program. The induction is on the run,
and only the thread that makes a call moves on. -/
theorem System.Reach.leads {ok : Q → History σ C R → (c : C) → R c → σ → Prop} {e : σ}
    {w : World σ Q C R ε α} (hw : S.Reach ok e w) :
    ∀ t ∈ w.threads, (S.body t.req).Leads t.past.calls.reverse t.prog := by
  unfold System.Reach at hw
  induction hw with
  | refl => exact fun t ht => by cases ht
  | @tail u v _ hstep ih =>
      intro t ht
      -- a step of somebody else changes neither the program nor the calls made
      have hsee : ∀ e', ∀ t₀ ∈ u.threads,
          (S.body (t₀.see e').req).Leads (t₀.see e').past.calls.reverse (t₀.see e').prog := by
        intro e' t₀ ht₀
        rw [Thread.req_see, Thread.calls_see, Thread.prog_see]
        exact ih t₀ ht₀
      cases hstep with
      | arrive hq =>
          rcases List.mem_append.mp ht with h | h
          · exact ih t h
          · rw [List.mem_singleton.mp h]
            exact .refl _
      | drift hd =>
          obtain ⟨t₀, ht₀, rfl⟩ := List.mem_map.mp ht
          exact hsee _ t₀ ht₀
      | @call j t₁ c k r e' ht₁ hp he hok =>
          obtain ⟨i, hi⟩ := List.mem_iff_getElem?.mp ht
          rcases System.advance_cases ht₁ hi with ⟨-, rfl⟩ | ⟨-, t₀, ht₀, rfl⟩ | ⟨-, q, -, rfl⟩
          · -- the caller goes on with its answer
            have hcaller := ih t₁ (List.mem_of_getElem? ht₁)
            rw [hp] at hcaller
            have hnext := hcaller.snoc r
            rw [← List.reverse_cons] at hnext
            exact hnext
          · -- the others only see the new environment
            exact hsee _ t₀ (List.mem_of_getElem? ht₀)
          · exact .refl _

/-! ## Runs with their schedule -/

/-- A run from `e`, and its calls in order, each with the index of its request. -/
inductive System.Scheduled (S : System σ Q C R ε α) (e : σ) :
    List (ℕ × Prog.Made C R) → World σ Q C R ε α → Prop
  | start : Scheduled S e [] ⟨e, []⟩
  | arrive {log : List (ℕ × Prog.Made C R)} {w : World σ Q C R ε α} {q : Q}
      (h : Scheduled S e log w) (hq : S.admits q) :
      Scheduled S e log ⟨w.env, w.threads ++ [S.opened w.env q]⟩
  | drift {log : List (ℕ × Prog.Made C R)} {w : World σ Q C R ε α} {e' : σ}
      (h : Scheduled S e log w) (hd : S.drift w.env e') :
      Scheduled S e log ⟨e', w.threads.map (·.see e')⟩
  | call {log : List (ℕ × Prog.Made C R)} {w : World σ Q C R ε α} {i : ℕ}
      {t : Thread σ Q C R ε α} {c : C} {k : R c → Prog C R ε α} {r : R c} {e' : σ}
      (h : Scheduled S e log w) (ht : w.threads[i]? = some t) (hp : t.prog = .call c k)
      (he : S.exec w.env c r e') :
      Scheduled S e (log ++ [(i, ⟨c, r⟩)]) ⟨e', S.advance w i t c k r e'⟩

/-- Every run has a schedule. -/
theorem System.Reach.scheduled {ok : Q → History σ C R → (c : C) → R c → σ → Prop} {e : σ}
    {w : World σ Q C R ε α} (hw : S.Reach ok e w) : ∃ log, S.Scheduled e log w := by
  unfold System.Reach at hw
  induction hw with
  | refl => exact ⟨[], .start⟩
  | tail _ hstep ih =>
      obtain ⟨log, hlog⟩ := ih
      cases hstep with
      | arrive hq => exact ⟨log, hlog.arrive hq⟩
      | drift hd => exact ⟨log, hlog.drift hd⟩
      | call ht hp he _ => exact ⟨_, hlog.call ht hp he⟩

namespace System.Scheduled

variable {e : σ} {log : List (ℕ × Prog.Made C R)} {w : World σ Q C R ε α}

theorem reach (h : S.Scheduled e log w) : S.Reach anyCall e w := by
  induction h with
  | start => exact .refl
  | arrive _ hq ih => exact ih.tail (.arrive hq)
  | drift _ hd ih => exact ih.tail (.drift hd)
  | call _ ht hp he ih => exact ih.tail (.call ht hp he trivial)

/-- What the environment went through. -/
theorem logged (h : S.Scheduled e log w) : S.Logged e (log.map (·.2)) w.env := by
  induction h with
  | start => exact .nil e
  | arrive _ _ ih => exact ih
  | drift _ hd ih =>
      have hafter := ih.trans (.drift hd (.nil _))
      rwa [List.append_nil] at hafter
  | call _ _ _ he ih =>
      rw [List.map_append]
      exact ih.trans (.call he (.nil _))

/-- Only requests that have arrived call, so an index in the log is one of a thread, and
stays one as threads only come in. -/
theorem lt_length (h : S.Scheduled e log w) : ∀ x ∈ log, x.1 < w.threads.length := by
  induction h with
  | start => exact fun x hx => by cases hx
  | arrive _ _ ih =>
      intro x hx
      have hlt := ih x hx
      rw [List.length_append]
      omega
  | drift _ _ ih =>
      intro x hx
      rw [List.length_map]
      exact ih x hx
  | call _ ht _ _ ih =>
      intro x hx
      obtain ⟨hi, -⟩ := List.getElem?_eq_some_iff.mp ht
      unfold System.advance
      rw [List.length_append, List.length_set, List.length_map]
      rcases List.mem_append.mp hx with hx | hx
      · have hlt := ih x hx
        omega
      · rw [List.mem_singleton.mp hx]
        dsimp only
        omega

/-- A request that has not arrived has called nothing. -/
theorem filter_eq_nil (h : S.Scheduled e log w) {i : ℕ} (hi : w.threads.length ≤ i) :
    log.filter (·.1 = i) = [] := by
  rw [List.filter_eq_nil_iff]
  intro x hx heq
  have hlt := h.lt_length x hx
  rw [decide_eq_true_eq] at heq
  omega

/-- **A request's own calls** are its part of the schedule, in the same order. The induction
is on the schedule, one entry at a time. -/
theorem calls_eq (h : S.Scheduled e log w) {i : ℕ} {t : Thread σ Q C R ε α}
    (ht : w.threads[i]? = some t) : t.past.calls.reverse = (log.filter (·.1 = i)).map (·.2) := by
  induction h generalizing t with
  | start => cases ht
  | @arrive log w q h hq ih =>
      rw [List.getElem?_append] at ht
      split at ht
      · exact ih ht
      · rename_i hout
        rw [List.mem_singleton.mp (List.mem_of_getElem? ht), h.filter_eq_nil (by omega)]
        rfl
  | @drift log w e' h hd ih =>
      rw [List.getElem?_map] at ht
      obtain ⟨t₀, ht₀, rfl⟩ := Option.map_eq_some_iff.mp ht
      rw [Thread.calls_see]
      exact ih ht₀
  | @call log w j t₁ c k r e' h ht₁ hp he ih =>
      rw [List.filter_append, List.map_append]
      rcases System.advance_cases ht₁ ht with ⟨rfl, rfl⟩ | ⟨hij, t₀, ht₀, rfl⟩ | ⟨hout, q, -, rfl⟩
      · rw [History.calls_own, List.reverse_cons, ih ht₁]
        simp
      · rw [Thread.calls_see, ih ht₀]
        simp [Ne.symm hij]
      · obtain ⟨hj, -⟩ := List.getElem?_eq_some_iff.mp ht₁
        have hne : j ≠ i := by omega
        rw [h.filter_eq_nil hout]
        simp [hne, System.opened, History.calls]

end System.Scheduled

end Concurrency
