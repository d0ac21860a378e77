/-
Interleavings of programs, and the rule that proves something about all of them.

Any number of requests arrive at any time; each runs its program (`Prog`) and
between two calls of one request any number of calls of the others may happen. A
call may also start background requests (Go's `go f()`), and the environment may
move by itself between calls (a clock, a cache that drops entries).

Every request carries its *history*: the environment states since it arrived and
which of its own calls produced them. It is a ghost: no program reads it. It lets
a theorem speak about "some moment during the request" as a member of a list.

The proof rule is rely/guarantee (`Contract.sound`): a program is *safe* when
each of its calls, made after any steps of others that respect `rely`, keeps
`guar`; when every body is safe and every guarantee respects the rely, then in
every reachable world every call keeps its guarantee.
-/
import EngineeringLab.Concurrency.Prog
import Mathlib.Data.List.Basic
import Mathlib.Logic.Relation

set_option autoImplicit false

namespace Concurrency

/-- The life of one request: where it started, what it did itself (`own`) and what
happened meanwhile (`other`), with the environment after each step. -/
inductive History (σ C : Type) (R : C → Type) : Type where
  | start (env : σ)
  | other (h : History σ C R) (env : σ)
  | own (h : History σ C R) (c : C) (r : R c) (env : σ)

namespace History

variable {σ C : Type} {R : C → Type}

/-- The environment after the last step. -/
def now : History σ C R → σ
  | start e => e
  | other _ e => e
  | own _ _ _ e => e

/-- The environment the request arrived in. -/
def first : History σ C R → σ
  | start e => e
  | other h _ => h.first
  | own h _ _ _ => h.first

/-- The environments during the request, newest first. -/
def moments : History σ C R → List σ
  | start e => [e]
  | other h e => e :: h.moments
  | own h _ _ e => e :: h.moments

/-- The environment that the request's last own call left, or the one it arrived in. -/
def latest : History σ C R → σ
  | start e => e
  | other h _ => h.latest
  | own _ _ _ e => e

/-- The request's own calls with their answers, newest first. -/
def calls : History σ C R → List ((c : C) × R c)
  | start _ => []
  | other h _ => h.calls
  | own h c r _ => ⟨c, r⟩ :: h.calls

@[simp] theorem first_own (h : History σ C R) (c : C) (r : R c) (e : σ) :
    (own h c r e).first = h.first := rfl

@[simp] theorem calls_own (h : History σ C R) (c : C) (r : R c) (e : σ) :
    (own h c r e).calls = ⟨c, r⟩ :: h.calls := rfl

/-- Every call that the request made was as `P` says. -/
def EachCall (P : History σ C R → (c : C) → R c → σ → Prop) : History σ C R → Prop
  | start _ => True
  | other h _ => EachCall P h
  | own h c r e => EachCall P h ∧ P h c r e

instance EachCall.decidable {P : History σ C R → (c : C) → R c → σ → Prop}
    [∀ h c r e, Decidable (P h c r e)] : ∀ h : History σ C R, Decidable (h.EachCall P)
  | start _ => .isTrue trivial
  | other h _ => EachCall.decidable h
  | own h c r e =>
    @instDecidableAnd _ _ (EachCall.decidable h) (inferInstanceAs (Decidable (P h c r e)))

theorem EachCall.mono {P P' : History σ C R → (c : C) → R c → σ → Prop} {h : History σ C R}
    (hp : h.EachCall P) (hmono : ∀ h c r e, P h c r e → P' h c r e) : h.EachCall P' := by
  induction h with
  | start e => trivial
  | other h e ih => exact ih hp
  | own h c r e ih => exact ⟨ih hp.1, hmono _ _ _ _ hp.2⟩

theorem now_mem_moments (h : History σ C R) : h.now ∈ h.moments := by
  cases h <;> simp [now, moments]

/-- Steps of others that respect `rely` and keep `inv`. -/
inductive Extends (inv : σ → Prop) (rely : σ → σ → Prop) :
    History σ C R → History σ C R → Prop
  | refl (h : History σ C R) : Extends inv rely h h
  | other {h h' : History σ C R} {e : σ} (ih : Extends inv rely h h')
      (hr : rely h'.now e) (hi : inv e) : Extends inv rely h (.other h' e)

namespace Extends

variable {inv : σ → Prop} {rely : σ → σ → Prop} {h h' h'' : History σ C R}

theorem trans (h₁ : Extends inv rely h h') (h₂ : Extends inv rely h' h'') :
    Extends inv rely h h'' := by
  induction h₂ with
  | refl => exact h₁
  | other _ hr hi ih => exact .other ih hr hi

theorem single {e : σ} (hr : rely h.now e) (hi : inv e) : Extends inv rely h (.other h e) :=
  .other (.refl h) hr hi

/-- A preorder that contains the rely relates the two ends. -/
theorem rel {rel : σ → σ → Prop} (hrefl : ∀ s, rel s s)
    (htrans : ∀ {s t u}, rel s t → rel t u → rel s u) (hsub : ∀ {s t}, rely s t → rel s t)
    (hx : Extends inv rely h h') : rel h.now h'.now := by
  induction hx with
  | refl => exact hrefl _
  | other _ hr _ ih => exact htrans ih (hsub hr)

/-- What no step of others breaks still holds. -/
theorem stable {P : σ → Prop} (hP : ∀ {s t}, rely s t → P s → P t) (hx : Extends inv rely h h')
    (hpre : P h.now) : P h'.now := by
  induction hx with
  | refl => exact hpre
  | other _ hr _ ih => exact hP hr ih

theorem first_eq (hx : Extends inv rely h h') : h'.first = h.first := by
  induction hx with
  | refl => rfl
  | other _ _ _ ih => exact ih

theorem latest_eq (hx : Extends inv rely h h') : h'.latest = h.latest := by
  induction hx with
  | refl => rfl
  | other _ _ _ ih => exact ih

theorem eachCall_iff {P : History σ C R → (c : C) → R c → σ → Prop}
    (hx : Extends inv rely h h') : h'.EachCall P ↔ h.EachCall P := by
  induction hx with
  | refl => rfl
  | other _ _ _ ih => exact ih

theorem moments_subset (hx : Extends inv rely h h') : h.moments ⊆ h'.moments := by
  induction hx with
  | refl => exact fun _ hm => hm
  | other _ _ _ ih => exact fun m hm => List.mem_cons_of_mem _ (ih hm)

/-- The others add no call of the request's own. -/
theorem calls_eq (hx : Extends inv rely h h') : h'.calls = h.calls := by
  induction hx with
  | refl => rfl
  | other _ _ _ ih => exact ih

end Extends

end History

variable {σ Q C : Type} {R : C → Type} {ε α : Type}

/-- A server: what a request of `Q` runs, which requests may arrive, what a call
may answer and do, how the environment moves by itself, and which background
requests a call starts. -/
structure System (σ Q C : Type) (R : C → Type) (ε α : Type) where
  body : Q → Prog C R ε α
  admits : Q → Prop
  exec : σ → (c : C) → R c → σ → Prop
  drift : σ → σ → Prop
  spawn : C → List Q

/-- A request in progress, with what is left of its program and everything that happened
since it arrived. When it has finished, its history stands still. -/
structure Thread (σ Q C : Type) (R : C → Type) (ε α : Type) where
  req : Q
  prog : Prog C R ε α
  past : History σ C R

/-- The thread after a step of somebody else: the new environment is entered in its history,
unless it has ended. -/
def Thread.see (t : Thread σ Q C R ε α) (e : σ) : Thread σ Q C R ε α :=
  if t.prog.finished then t else { t with past := .other t.past e }

theorem Thread.first_see (t : Thread σ Q C R ε α) (e : σ) :
    (t.see e).past.first = t.past.first := by
  unfold Thread.see
  split <;> rfl

theorem Thread.eachCall_see {P : History σ C R → (c : C) → R c → σ → Prop}
    {t : Thread σ Q C R ε α} (h : t.past.EachCall P) (e : σ) : (t.see e).past.EachCall P := by
  unfold Thread.see
  split
  · exact h
  · exact h

@[simp] theorem Thread.req_see (t : Thread σ Q C R ε α) (e : σ) : (t.see e).req = t.req := by
  unfold Thread.see
  split <;> rfl

@[simp] theorem Thread.prog_see (t : Thread σ Q C R ε α) (e : σ) : (t.see e).prog = t.prog := by
  unfold Thread.see
  split <;> rfl

/-- The environment and all requests that have arrived, in the order of their arrival. A
request that has ended keeps its place, so an index names it for good. -/
structure World (σ Q C : Type) (R : C → Type) (ε α : Type) where
  env : σ
  threads : List (Thread σ Q C R ε α)

/-- The `i`-th request and how it ended. -/
def World.ended (w : World σ Q C R ε α) (i : ℕ) : Option (Q × Except ε α) :=
  match w.threads[i]? with
  | some t => t.prog.outcome.map (t.req, ·)
  | none => none

theorem World.thread_of_ended {w : World σ Q C R ε α} {i : ℕ} {q : Q} {a : α}
    (h : w.ended i = some (q, .ok a)) :
    ∃ t, w.threads[i]? = some t ∧ t.req = q ∧ t.prog = .ret a := by
  unfold World.ended at h
  split at h
  · rename_i t ht
    obtain ⟨o, ho, heq⟩ := Option.map_eq_some_iff.mp h
    obtain ⟨hreq, rfl⟩ := Prod.mk.inj heq
    exact ⟨t, ht, hreq, Prog.eq_ret_of_outcome ho⟩
  · cases h

/-- A request that arrives in environment `e`. -/
def System.opened (S : System σ Q C R ε α) (e : σ) (q : Q) : Thread σ Q C R ε α :=
  ⟨q, S.body q, .start e⟩

/-- The threads after thread `i`, at call `c` with continuation `k`, got `r`. -/
def System.advance (S : System σ Q C R ε α) (w : World σ Q C R ε α) (i : ℕ)
    (t : Thread σ Q C R ε α) (c : C) (k : R c → Prog C R ε α) (r : R c) (e : σ) :
    List (Thread σ Q C R ε α) :=
  (w.threads.map (·.see e)).set i ⟨t.req, k r, .own t.past c r e⟩ ++ (S.spawn c).map (S.opened e)

theorem System.getElem?_advance {S : System σ Q C R ε α} {w : World σ Q C R ε α} {i j : ℕ}
    {t t' : Thread σ Q C R ε α} {c : C} {k : R c → Prog C R ε α} {r : R c} {e : σ}
    (ht : w.threads[j]? = some t) (ht' : (S.advance w j t c k r e)[i]? = some t') :
    (∃ t₀, w.threads[i]? = some t₀ ∧ t'.past.first = t₀.past.first) ∨ t'.past.first = e := by
  unfold System.advance at ht'
  rw [List.getElem?_append] at ht'
  split at ht'
  · refine .inl ?_
    by_cases hij : j = i
    · subst hij
      obtain ⟨hlt, -⟩ := List.getElem?_eq_some_iff.mp ht
      rw [List.getElem?_set_self (by simpa using hlt)] at ht'
      cases ht'
      exact ⟨t, ht, rfl⟩
    · rw [List.getElem?_set_ne hij, List.getElem?_map] at ht'
      obtain ⟨t₀, ht₀, rfl⟩ := Option.map_eq_some_iff.mp ht'
      exact ⟨t₀, ht₀, t₀.first_see e⟩
  · refine .inr ?_
    obtain ⟨q, -, rfl⟩ := List.mem_map.mp (List.mem_of_getElem? ht')
    rfl

/-- One step. `ok` restricts the calls: it is `fun _ _ _ _ _ => True` for all runs,
and a condition for the runs whose every call meets it. -/
inductive System.Step (S : System σ Q C R ε α)
    (ok : Q → History σ C R → (c : C) → R c → σ → Prop) :
    World σ Q C R ε α → World σ Q C R ε α → Prop
  | arrive {w : World σ Q C R ε α} {q : Q} (hq : S.admits q) :
      Step S ok w ⟨w.env, w.threads ++ [S.opened w.env q]⟩
  | drift {w : World σ Q C R ε α} {e : σ} (he : S.drift w.env e) :
      Step S ok w ⟨e, w.threads.map (·.see e)⟩
  | call {w : World σ Q C R ε α} {i : ℕ} {t : Thread σ Q C R ε α} {c : C}
      {k : R c → Prog C R ε α} {r : R c} {e : σ}
      (ht : w.threads[i]? = some t) (hp : t.prog = .call c k) (he : S.exec w.env c r e)
      (hok : ok t.req t.past c r e) : Step S ok w ⟨e, S.advance w i t c k r e⟩

/-- No condition on the calls of a run. -/
abbrev anyCall : Q → History σ C R → (c : C) → R c → σ → Prop := fun _ _ _ _ _ => True

/-- The worlds a run can reach, starting with no request in progress. Each call on the way
meets `ok`, which may depend on the request, on its history and on the answer. -/
def System.Reach (S : System σ Q C R ε α)
    (ok : Q → History σ C R → (c : C) → R c → σ → Prop) (e : σ) (w : World σ Q C R ε α) : Prop :=
  Relation.ReflTransGen (S.Step ok) ⟨e, []⟩ w

/-- A run under a condition is a run under any weaker one. -/
theorem System.Reach.mono {S : System σ Q C R ε α}
    {ok ok' : Q → History σ C R → (c : C) → R c → σ → Prop}
    (hok : ∀ q h c r e, ok q h c r e → ok' q h c r e) {e : σ} {w : World σ Q C R ε α}
    (hw : S.Reach ok e w) : S.Reach ok' e w := by
  unfold System.Reach at hw ⊢
  induction hw with
  | refl => exact .refl
  | tail _ hstep ih =>
      refine ih.tail ?_
      cases hstep with
      | arrive hq => exact .arrive hq
      | drift he => exact .drift he
      | call ht hp he hc => exact .call ht hp he (hok _ _ _ _ _ hc)

/-! ## Rely and guarantee -/

/-- What is to be shown about a server: an invariant of the environment, what a
request may rely on others not to break, what each of its own calls guarantees
(in runs whose calls are `ok`), and what holds when it ends. -/
structure Contract (S : System σ Q C R ε α) where
  inv : σ → Prop
  rely : σ → σ → Prop
  pre : Q → σ → Prop
  ok : Q → History σ C R → (c : C) → R c → σ → Prop
  guar : Q → History σ C R → (c : C) → R c → σ → Prop
  post : Q → Except ε α → History σ C R → Prop

namespace Contract

variable {S : System σ Q C R ε α} (K : Contract S)

/-- From this history on, every call of the program keeps the guarantee, whatever
the others do in between, and the end satisfies `post`. -/
def Along (q : Q) {β : Type} :
    Prog C R ε β → History σ C R → (Except ε β → History σ C R → Prop) → Prop
  | .ret a, h, post => post (.ok a) h
  | .throw x, h, post => post (.error x) h
  | .call c k, h, post => ∀ h', History.Extends K.inv K.rely h h' → K.inv h'.now →
      ∀ r e, S.exec h'.now c r e → K.ok q h' c r e →
        K.guar q h' c r e ∧ Along q (k r) (.own h' c r e) post

/-- The same for the rest of a request, which ends as the contract says. -/
def Safe (q : Q) (p : Prog C R ε α) (h : History σ C R) : Prop := K.Along q p h (K.post q)

/-- What makes a contract provable: the four obligations of the rule. Each is about one step
or one request, and none mentions the interleaving. -/
structure Holds : Prop where
  drift : ∀ e e', K.inv e → S.drift e e' → K.inv e' ∧ K.rely e e'
  call : ∀ q h c r e, K.inv h.now → S.exec h.now c r e → K.guar q h c r e →
    K.inv e ∧ K.rely h.now e ∧ ∀ q' ∈ S.spawn c, K.pre q' e
  arrive : ∀ q e, S.admits q → K.inv e → K.pre q e
  body : ∀ q e, K.inv e → K.pre q e → K.Safe q (S.body q) (.start e)

variable {K}

theorem Along.mono {q : Q} {β : Type} {p : Prog C R ε β} {h : History σ C R}
    {post post' : Except ε β → History σ C R → Prop} (hp : K.Along q p h post)
    (hpost : ∀ o h', post o h' → post' o h') : K.Along q p h post' := by
  induction p generalizing h with
  | ret a => exact hpost _ _ hp
  | throw x => exact hpost _ _ hp
  | call c k ih =>
      intro h' hx hi r e he hok
      obtain ⟨hg, hk⟩ := hp h' hx hi r e he hok
      exact ⟨hg, ih r hk⟩

/-- The moments of a request stay. -/
theorem Along.moments {q : Q} {β : Type} {p : Prog C R ε β} {h : History σ C R}
    {post : Except ε β → History σ C R → Prop} (hp : K.Along q p h post) :
    K.Along q p h fun o h' => post o h' ∧ h.moments ⊆ h'.moments := by
  induction p generalizing h with
  | ret a => exact ⟨hp, fun _ hm => hm⟩
  | throw x => exact ⟨hp, fun _ hm => hm⟩
  | call c k ih =>
      intro h' hx hi r e he hok
      obtain ⟨hg, hk⟩ := hp h' hx hi r e he hok
      have hsub : h.moments ⊆ (History.own h' c r e).moments :=
        fun m hm => List.mem_cons_of_mem _ (hx.moments_subset hm)
      exact ⟨hg, (ih r hk).mono fun _ _ hpost => ⟨hpost.1, fun m hm => hpost.2 (hsub hm)⟩⟩

/-- The rule of sequencing: the second program is followed from the history that the first
leaves, if it returned, and what the first throws ends both. -/
theorem Along.bind {q : Q} {β γ : Type} {p : Prog C R ε β} {f : β → Prog C R ε γ}
    {h : History σ C R} {post : Except ε γ → History σ C R → Prop}
    (hp : K.Along q p h fun o h' => match o with
      | .ok a => K.Along q (f a) h' post
      | .error x => post (.error x) h') : K.Along q (p >>= f) h post := by
  induction p generalizing h with
  | ret a => exact hp
  | throw x => exact hp
  | call c k ih =>
      intro h' hx hi r e he hok
      obtain ⟨hg, hk⟩ := hp h' hx hi r e he hok
      exact ⟨hg, ih r hk⟩

/-- The rule of `try`: the handler is followed from the history at which the body threw. -/
theorem Along.tryCatch {q : Q} {β : Type} {p : Prog C R ε β} {f : ε → Prog C R ε β}
    {h : History σ C R} {post : Except ε β → History σ C R → Prop}
    (hp : K.Along q p h fun o h' => match o with
      | .ok a => post (.ok a) h'
      | .error x => K.Along q (f x) h' post) : K.Along q (p.tryCatch f) h post := by
  induction p generalizing h with
  | ret a => exact hp
  | throw x => exact hp
  | call c k ih =>
      intro h' hx hi r e he hok
      obtain ⟨hg, hk⟩ := hp h' hx hi r e he hok
      exact ⟨hg, ih r hk⟩

theorem Safe.extends {q : Q} {p : Prog C R ε α} {h h' : History σ C R}
    (hs : K.Safe q p h) (hx : History.Extends K.inv K.rely h h') (hp : p.finished = false) :
    K.Safe q p h' := by
  cases p with
  | ret a => simp [Prog.finished] at hp
  | throw x => simp [Prog.finished] at hp
  | call c k => exact fun h'' hx' => hs h'' (hx.trans hx')

/-- A thread whose remaining program is safe, whose history is up to date, and
whose last moment leads to the present by steps that respect the rely. -/
def Sound (K : Contract S) (e : σ) (t : Thread σ Q C R ε α) : Prop :=
  K.Safe t.req t.prog t.past ∧ (t.prog.finished = false → t.past.now = e) ∧
    Relation.ReflTransGen K.rely t.past.now e

theorem Sound.see {e e' : σ} {t : Thread σ Q C R ε α} (ht : K.Sound e t)
    (hr : K.rely e e') (hi : K.inv e') : K.Sound e' (t.see e') := by
  obtain ⟨hs, hn, hp⟩ := ht
  by_cases hf : t.prog.finished = true
  · simp only [Thread.see, hf, if_true]
    exact ⟨hs, fun hf' => by simp [hf] at hf', hp.tail hr⟩
  · simp only [Bool.not_eq_true] at hf
    simp only [Thread.see, hf, Bool.false_eq_true, if_false]
    refine ⟨hs.extends (.single ?_ hi) hf, fun _ => rfl, .refl⟩
    rwa [hn hf]

theorem sound_opened (hK : K.Holds) {q : Q} {e : σ} (hi : K.inv e) (hq : K.pre q e) :
    K.Sound e (S.opened e q) :=
  ⟨hK.body q e hi hq, fun _ => rfl, .refl⟩

/-- The invariant the induction carries: the environment invariant, and every thread sound. -/
def Good (K : Contract S) (w : World σ Q C R ε α) : Prop :=
  K.inv w.env ∧ ∀ t ∈ w.threads, K.Sound w.env t

theorem Good.guar {w : World σ Q C R ε α} (hw : K.Good w) {t : Thread σ Q C R ε α}
    (ht : t ∈ w.threads) {c : C} {k : R c → Prog C R ε α} (hp : t.prog = .call c k)
    {r : R c} {e : σ} (he : S.exec w.env c r e) (hok : K.ok t.req t.past c r e) :
    t.past.now = w.env ∧ K.guar t.req t.past c r e ∧ K.Safe t.req (k r) (.own t.past c r e) := by
  obtain ⟨hs, hn, _⟩ := hw.2 t ht
  have hnow : t.past.now = w.env := hn (by rw [hp]; rfl)
  rw [hp] at hs
  refine ⟨hnow, hs t.past (.refl _) (by rw [hnow]; exact hw.1) r e (by rwa [hnow]) hok⟩

/-- One step keeps the invariant, and respects the rely unless it only lets a
request in. -/
theorem Good.step (hK : K.Holds) {w w' : World σ Q C R ε α} (hw : K.Good w)
    (hstep : S.Step K.ok w w') : K.Good w' ∧ (w'.env = w.env ∨ K.rely w.env w'.env) := by
  cases hstep with
  | @arrive q hq =>
      refine ⟨⟨hw.1, fun t ht => ?_⟩, .inl rfl⟩
      rcases List.mem_append.mp ht with h | h
      · exact hw.2 t h
      · rw [List.mem_singleton.mp h]
        exact sound_opened hK hw.1 (hK.arrive q _ hq hw.1)
  | @drift e he =>
      obtain ⟨hi, hr⟩ := hK.drift _ _ hw.1 he
      refine ⟨⟨hi, fun t ht => ?_⟩, .inr hr⟩
      obtain ⟨t₀, ht₀, rfl⟩ := List.mem_map.mp ht
      exact (hw.2 t₀ ht₀).see hr hi
  | @call i t c k r e ht hp he hok =>
      have htm : t ∈ w.threads := List.mem_of_getElem? ht
      obtain ⟨hnow, hg, hsafe⟩ := hw.guar htm hp he hok
      obtain ⟨hi, hr, hpre⟩ := hK.call _ _ _ _ _ (by rw [hnow]; exact hw.1)
        (by rwa [hnow]) hg
      rw [hnow] at hr
      -- The other threads see the call as interference, the caller goes on, and what the call
      -- spawned starts here.
      refine ⟨⟨hi, fun t' ht' => ?_⟩, .inr hr⟩
      rcases List.mem_append.mp ht' with h | h
      · rcases List.mem_or_eq_of_mem_set h with h | rfl
        · obtain ⟨t₀, ht₀, rfl⟩ := List.mem_map.mp h
          exact (hw.2 t₀ ht₀).see hr hi
        · exact ⟨hsafe, fun _ => rfl, .refl⟩
      · obtain ⟨q, hq, rfl⟩ := List.mem_map.mp h
        exact sound_opened hK hi (hpre q hq)

/-- **Rely/guarantee rule.** In every world that a run of `ok` calls reaches, the
invariant holds and every thread is sound. -/
theorem sound (hK : K.Holds) {e : σ} (hi : K.inv e) {w : World σ Q C R ε α}
    (hw : S.Reach K.ok e w) : K.Good w := by
  unfold System.Reach at hw
  induction hw with
  | refl => exact ⟨hi, fun t ht => by simp at ht⟩
  | tail _ hstep ih => exact (ih.step hK hstep).1

/-- What the rule says about the calls that the requests have made: each was as the
guarantee says, at the moment it was made. -/
theorem sound_calls (hK : K.Holds) {e : σ} (hi : K.inv e) {w : World σ Q C R ε α}
    (hw : S.Reach K.ok e w) : ∀ t ∈ w.threads, t.past.EachCall (K.guar t.req) := by
  unfold System.Reach at hw
  induction hw with
  | refl => intro t ht; cases ht
  | @tail u v hu hstep ih =>
      -- `Good` says of the next call that it is made as its program was proved to make it
      have hgood : K.Good u := sound hK hi hu
      intro t ht
      cases hstep with
      | @arrive q hq =>
          rcases List.mem_append.mp ht with h | h
          · exact ih t h
          · rw [List.mem_singleton.mp h]
            trivial
      | @drift e' he =>
          obtain ⟨t₀, ht₀, rfl⟩ := List.mem_map.mp ht
          rw [Thread.req_see]
          exact Thread.eachCall_see (ih t₀ ht₀) e'
      | @call i t₁ c k r e' ht₁ hp he hok =>
          have hmem : t₁ ∈ u.threads := List.mem_of_getElem? ht₁
          rcases List.mem_append.mp ht with h | h
          · rcases List.mem_or_eq_of_mem_set h with h | rfl
            · obtain ⟨t₀, ht₀, rfl⟩ := List.mem_map.mp h
              rw [Thread.req_see]
              exact Thread.eachCall_see (ih t₀ ht₀) e'
            · exact ⟨ih t₁ hmem, (hgood.guar hmem hp he hok).2.1⟩
          · obtain ⟨q, -, rfl⟩ := List.mem_map.mp h
            trivial

/-- What the rule says about a request that returned. -/
theorem sound_post (hK : K.Holds) {e : σ} (hi : K.inv e) {w : World σ Q C R ε α}
    (hw : S.Reach K.ok e w) {t : Thread σ Q C R ε α} (ht : t ∈ w.threads) {a : α}
    (hp : t.prog = .ret a) : K.post t.req (.ok a) t.past := by
  have hs := ((sound hK hi hw).2 t ht).1
  rwa [hp] at hs

/-- What the rule says about a request that threw. -/
theorem sound_throw (hK : K.Holds) {e : σ} (hi : K.inv e) {w : World σ Q C R ε α}
    (hw : S.Reach K.ok e w) {t : Thread σ Q C R ε α} (ht : t ∈ w.threads) {x : ε}
    (hp : t.prog = .throw x) : K.post t.req (.error x) t.past := by
  have hs := ((sound hK hi hw).2 t ht).1
  rwa [hp] at hs

/-- The environment only moves by steps that respect the rely, and a request that
arrives later starts in an environment reached that way. -/
theorem Good.later (hK : K.Holds) {w w' : World σ Q C R ε α} (hw : K.Good w)
    (hs : Relation.ReflTransGen (S.Step K.ok) w w') :
    K.Good w' ∧ Relation.ReflTransGen K.rely w.env w'.env ∧
      ∀ i t, w.threads.length ≤ i → w'.threads[i]? = some t →
        Relation.ReflTransGen K.rely w.env t.past.first := by
  induction hs with
  | refl =>
      refine ⟨hw, .refl, fun i t hi ht => ?_⟩
      rw [List.getElem?_eq_none hi] at ht
      cases ht
  | @tail u v _ hstep ih =>
      obtain ⟨hu, hpath, hfirst⟩ := ih
      obtain ⟨hv, henv⟩ := hu.step hK hstep
      have hpath' : Relation.ReflTransGen K.rely w.env v.env := by
        rcases henv with h | h
        · rwa [h]
        · exact hpath.tail h
      refine ⟨hv, hpath', fun i t hi ht => ?_⟩
      -- a thread of `v` is an old thread with a longer history, or opened just now
      have hsrc : (∃ t₀, u.threads[i]? = some t₀ ∧ t.past.first = t₀.past.first) ∨
          t.past.first = v.env := by
        cases hstep with
        | arrive hq =>
            rw [List.getElem?_append] at ht
            split at ht
            · exact .inl ⟨t, ht, rfl⟩
            · rw [List.mem_singleton.mp (List.mem_of_getElem? ht)]
              exact .inr rfl
        | drift he =>
            rw [List.getElem?_map] at ht
            obtain ⟨t₀, ht₀, rfl⟩ := Option.map_eq_some_iff.mp ht
            exact .inl ⟨t₀, ht₀, Thread.first_see t₀ _⟩
        | @call j t₁ c k r e ht₁ hp he hok =>
            rcases System.getElem?_advance ht₁ ht with h | h
            · exact .inl h
            · exact .inr h
      rcases hsrc with ⟨t₀, ht₀, he⟩ | he
      · rw [he]; exact hfirst i t₀ hi ht₀
      · rw [he]; exact hpath'

/-- The rely leads from the end of a finished request to the present. -/
theorem Good.since {w : World σ Q C R ε α} (hw : K.Good w) {t : Thread σ Q C R ε α}
    (ht : t ∈ w.threads) : Relation.ReflTransGen K.rely t.past.now w.env :=
  (hw.2 t ht).2.2

/-- It leads from there to the start of every request that arrives later. -/
theorem Good.since_later (hK : K.Holds) {w w' : World σ Q C R ε α} (hw : K.Good w)
    (hs : Relation.ReflTransGen (S.Step K.ok) w w') {t : Thread σ Q C R ε α}
    (ht : t ∈ w.threads) {i : ℕ} {u : Thread σ Q C R ε α} (hi : w.threads.length ≤ i)
    (hu : w'.threads[i]? = some u) : Relation.ReflTransGen K.rely t.past.now u.past.first := by
  obtain ⟨-, -, hlate⟩ := hw.later hK hs
  exact (hw.since ht).trans (hlate i u hi hu)

end Contract

/-! ## Playing a schedule

A concrete run is a list of moves; `reach_play` turns it into a reachable world. -/

/-- One scheduling decision, for calls that a function carries out. A list of them
determines a run, and so a run can be played. -/
inductive Move (σ Q : Type) : Type where
  | arrive (q : Q)
  | call (i : ℕ)
  | drift (f : σ → σ)

namespace System

variable (S : System σ Q C R ε α) (f : σ → (c : C) → R c × σ)

/-- The world after one move; a move that is not possible does nothing. -/
def play (w : World σ Q C R ε α) : Move σ Q → World σ Q C R ε α
  | .arrive q => ⟨w.env, w.threads ++ [S.opened w.env q]⟩
  | .drift g => ⟨g w.env, w.threads.map (·.see (g w.env))⟩
  | .call i => match w.threads[i]? with
    | none => w
    | some t => match t.prog with
      | .call c k => ⟨(f w.env c).2, S.advance w i t c k (f w.env c).1 (f w.env c).2⟩
      | _ => w

/-- The world after a schedule. -/
def playAll (w : World σ Q C R ε α) (ms : List (Move σ Q)) : World σ Q C R ε α :=
  ms.foldl (S.play f) w

/-- The moves a schedule may make: only admitted requests arrive, and the
environment drifts as it can. -/
def Legal : Move σ Q → Prop
  | .arrive q => S.admits q
  | .call _ => True
  | .drift g => ∀ e, S.drift e (g e)

/-- Every call that a schedule makes meets `ok`, at the history and with the answer that it
has when its turn comes. -/
def Meets (ok : Q → History σ C R → (c : C) → R c → σ → Prop) :
    World σ Q C R ε α → List (Move σ Q) → Prop
  | _, [] => True
  | w, m :: ms =>
    (∀ i, m = .call i → ∀ t ∈ w.threads[i]?, ∀ c k, t.prog = .call c k →
      ok t.req t.past c (f w.env c).1 (f w.env c).2) ∧ Meets ok (S.play f w m) ms

variable {S f}

theorem meets_anyCall (w : World σ Q C R ε α) (ms : List (Move σ Q)) :
    S.Meets f anyCall w ms := by
  induction ms generalizing w with
  | nil => trivial
  | cons m ms ih => exact ⟨fun _ _ _ _ _ _ _ => trivial, ih _⟩

variable {ok : Q → History σ C R → (c : C) → R c → σ → Prop}

/-- Whether a schedule meets a decidable condition is decided by playing it. -/
instance decidableMeets {ok : Q → History σ C R → (c : C) → R c → σ → Prop}
    [∀ q h c r e, Decidable (ok q h c r e)] :
    ∀ (w : World σ Q C R ε α) (ms : List (Move σ Q)), Decidable (S.Meets f ok w ms)
  | _, [] => .isTrue trivial
  | w, m :: ms =>
    let first : Decidable (∀ i, m = .call i → ∀ t ∈ w.threads[i]?, ∀ c k, t.prog = .call c k →
        ok t.req t.past c (f w.env c).1 (f w.env c).2) :=
      match m with
      | .arrive _ => .isTrue fun _ h => nomatch h
      | .drift _ => .isTrue fun _ h => nomatch h
      | .call i => match ht : w.threads[i]? with
        | none => .isTrue fun j h t hmem => by cases h; rw [ht] at hmem; cases hmem
        | some t => match hp : t.prog with
          | .ret _ => .isTrue fun j h t' hmem c k hp' => by
            cases h; rw [ht] at hmem; cases hmem; rw [hp] at hp'; cases hp'
          | .throw _ => .isTrue fun j h t' hmem c k hp' => by
            cases h; rw [ht] at hmem; cases hmem; rw [hp] at hp'; cases hp'
          | .call c k => decidable_of_iff (ok t.req t.past c (f w.env c).1 (f w.env c).2)
            ⟨fun hok j h t' hmem c' k' hp' => by
              cases h; rw [ht] at hmem; cases hmem; rw [hp] at hp'; cases hp'; exact hok,
              fun hall => hall i rfl t ht c k hp⟩
    let rest : Decidable (S.Meets f ok (S.play f w m) ms) := decidableMeets _ ms
    @instDecidableAnd _ _ first rest

theorem step_play (hf : ∀ e c, S.exec e c (f e c).1 (f e c).2) {w : World σ Q C R ε α}
    {m : Move σ Q} (hm : S.Legal m)
    (hok : ∀ i, m = .call i → ∀ t ∈ w.threads[i]?, ∀ c k, t.prog = .call c k →
      ok t.req t.past c (f w.env c).1 (f w.env c).2) :
    Relation.ReflTransGen (S.Step ok) w (S.play f w m) := by
  cases m with
  | arrive q => exact .single (.arrive hm)
  | drift g => exact .single (.drift (hm w.env))
  | call i =>
      simp only [play]
      split
      · exact .refl
      · rename_i t ht
        split
        · rename_i c k hp
          exact .single (.call ht hp (hf _ _) (hok i rfl t ht c k hp))
        · exact .refl

/-- A schedule of legal moves is a run. -/
theorem steps_play (hf : ∀ e c, S.exec e c (f e c).1 (f e c).2) {w : World σ Q C R ε α}
    {ms : List (Move σ Q)} (hms : ∀ m ∈ ms, S.Legal m) (hok : S.Meets f ok w ms) :
    Relation.ReflTransGen (S.Step ok) w (S.playAll f w ms) := by
  induction ms generalizing w with
  | nil => exact .refl
  | cons m ms ih =>
      have hstep := step_play hf (hms m (by simp)) hok.1
      exact hstep.trans (ih (fun m' hm' => hms m' (List.mem_cons_of_mem _ hm')) hok.2)

/-- A schedule of legal moves leads to a reachable world. -/
theorem reach_play (hf : ∀ e c, S.exec e c (f e c).1 (f e c).2) {e : σ}
    {ms : List (Move σ Q)} (hms : ∀ m ∈ ms, S.Legal m) (hok : S.Meets f ok ⟨e, []⟩ ms) :
    S.Reach ok e (S.playAll f ⟨e, []⟩ ms) :=
  steps_play hf hms hok

end System

end Concurrency
