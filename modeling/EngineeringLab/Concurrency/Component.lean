/-
Components.

A component is a system that lives in a part of another system's state: its calls are calls of the
larger system, and do there what they do in the component. A method of the component is then a
part of a larger request, with other calls before it, after it and, by others, in between.

What a contract says about the method holds there, too (`Contract.Along.lift`), if the larger
contract keeps up the component's invariant and rely. The rest of a request is put together by
`Along.bind`, and where all of its calls keep the guarantee, whatever they are answered, there is
nothing to show (`Contract.along_interpret`).

The lifting goes by a map from the states of the larger system to those of the component,
and asks that the other calls of the larger system look to the component like nothing, or
like moves that it knows already. Then a history of the larger request, seen through the
map, is one of the method, and the method's postcondition holds of it. What a request does
before and after, the component does not see.

What a request has called has kept the guarantee, and all that has happened since has kept
the rely (`Contract.sound_since`); so what a method of a component has left behind may be
used at any later moment.
-/
import EngineeringLab.Concurrency.Emits

set_option autoImplicit false

namespace Concurrency

variable {σ Q C : Type} {R : C → Type} {ε α β γ : Type}

/-- Programs in the place of calls, twice. -/
theorem Prog.interpret_interpret {X Z : Type} {Y : X → Type} {W : Z → Type}
    {f : (z : Z) → Prog X Y ε (W z)} {g : (x : X) → Prog C R ε (Y x)} (p : Prog Z W ε β) :
    (p.interpret f).interpret g = p.interpret fun z => (f z).interpret g := by
  induction p with
  | ret a => rfl
  | throw e => rfl
  | call z k ih =>
      rw [interpret, interpret_bind, interpret]
      simp only [ih]

/-! ## Programs that do no harm -/

namespace Contract

variable {S : System σ Q C R ε α} {K : Contract S} {q : Q}

/-- Programs in the place of calls, none of which does any harm, nor ends what held before. -/
theorem along_interpret {X : Type} {Y : X → Type} {P : X → Prop} {P' : β → Prop} {J : σ → Prop}
    {f : (x : X) → Prog C R ε (Y x)}
    (hf : ∀ x, P x → ∀ h, J h.now → K.Along q (f x) h fun _ h' => J h'.now)
    {p : Prog X Y ε β} (hp : p.Obeys P P') {h : History σ C R} (hJ : J h.now) :
    K.Along q (p.interpret f) h fun o h' => J h'.now ∧ ∀ a, o = .ok a → P' a := by
  induction p generalizing h with
  | ret a => exact ⟨hJ, by rintro _ ⟨⟩; exact hp⟩
  | throw x => exact ⟨hJ, by rintro _ ⟨⟩⟩
  | call x k ih =>
      refine Along.bind ((hf x hp.1 h hJ).mono fun o h' hJ' => ?_)
      cases o with
      | error e => exact ⟨hJ', by rintro _ ⟨⟩⟩
      | ok r => exact ih r (hp.2 r) hJ'

/-- What holds at the end of a program that only wraps its result. -/
theorem Along.of_map {p : Prog C R ε β} {f : β → γ} {h : History σ C R}
    {post : Except ε γ → History σ C R → Prop}
    (hp : K.Along q (p >>= fun a => .ret (f a)) h post) :
    K.Along q p h fun o h' => post (o.map f) h' := by
  induction p generalizing h with
  | ret a => exact hp
  | throw x => exact hp
  | call c k ih =>
      intro h' hx hi r e he hok
      obtain ⟨hg, hk⟩ := hp h' hx hi r e he hok
      exact ⟨hg, ih r hk⟩

end Contract

/-! ## Calls that were made -/

theorem History.EachCall.of_mem {P : History σ C R → (c : C) → R c → σ → Prop} {h : History σ C R}
    (hp : h.EachCall P) {x : (c : C) × R c} (hx : x ∈ h.calls) : ∃ h' e, P h' x.1 x.2 e := by
  induction h with
  | start e => cases hx
  | other h e ih => exact ih hp hx
  | own h c r e ih =>
      rw [History.calls_own, List.mem_cons] at hx
      rcases hx with rfl | hx
      · exact ⟨h, e, hp.2⟩
      · exact ih hp.1 hx

/-- **What a request has called** has kept the guarantee, and from there the rely leads to the
present. -/
theorem Contract.sound_since {S : System σ Q C R ε α} {K : Contract S} (hK : K.Holds) {e : σ}
    (hi : K.inv e) {w : World σ Q C R ε α} (hw : S.Reach K.ok e w) :
    ∀ t ∈ w.threads, t.past.EachCall fun h c r e' =>
      K.guar t.req h c r e' ∧ Relation.ReflTransGen K.rely e' w.env := by
  unfold System.Reach at hw
  induction hw with
  | refl => intro t ht; cases ht
  | @tail u v hu hstep ih =>
      have hgood : K.Good u := sound hK hi hu
      have henv := (hgood.step hK hstep).2
      have hmoved : ∀ t ∈ u.threads, t.past.EachCall fun h c r e' =>
          K.guar t.req h c r e' ∧ Relation.ReflTransGen K.rely e' v.env := by
        intro t ht
        refine (ih t ht).mono fun h c r e' hcall => ⟨hcall.1, ?_⟩
        -- what was promised at a call is carried along by each later step
        rcases henv with hsame | hmoved
        · rw [hsame]
          exact hcall.2
        · exact hcall.2.tail hmoved
      intro t ht
      cases hstep with
      | @arrive q hq =>
          rcases List.mem_append.mp ht with h | h
          · exact hmoved t h
          · rw [List.mem_singleton.mp h]
            trivial
      | @drift e' he =>
          obtain ⟨t₀, ht₀, rfl⟩ := List.mem_map.mp ht
          rw [Thread.req_see]
          exact Thread.eachCall_see (hmoved t₀ ht₀) e'
      | @call i t₁ c k r e' ht₁ hp he hok =>
          have hmem : t₁ ∈ u.threads := List.mem_of_getElem? ht₁
          rcases List.mem_append.mp ht with h | h
          · rcases List.mem_or_eq_of_mem_set h with h | rfl
            · obtain ⟨t₀, ht₀, rfl⟩ := List.mem_map.mp h
              rw [Thread.req_see]
              exact Thread.eachCall_see (hmoved t₀ ht₀) e'
            · exact ⟨hmoved t₁ hmem, (hgood.guar hmem hp he hok).2.1, .refl⟩
          · obtain ⟨q, -, rfl⟩ := List.mem_map.mp h
            trivial

/-! ## A component of a system -/

variable {τ Q' D : Type} {R' : D → Type} {ε' α' : Type}

/-- `S` as a part of `T`. -/
structure Component (S : System σ Q C R ε α) (T : System τ Q' D R' ε' α') where
  state : τ → σ
  call : C → D
  answer : (c : C) → R' (call c) → R c
  exec : ∀ {t : τ} {c : C} {r : R' (call c)} {t' : τ}, T.exec t (call c) r t' →
    S.exec (state t) c (answer c r) (state t')

section

variable {S : System σ Q C R ε α} {T : System τ Q' D R' ε' α'}

/-- A call of the component, made in the larger system. -/
def Component.use (comp : Component S T) (c : C) : Prog D R' ε' (R c) :=
  .call (comp.call c) fun r => .ret (comp.answer c r)

/-- The contract of the larger system keeps up what the component's contract needs of others, and
asks no more of calls as in `P` than that does. -/
structure Contract.Lifts (K : Contract S) (q : Q) (comp : Component S T) (K' : Contract T)
    (q' : Q') (P : C → Prop) : Prop where
  inv : ∀ t, K'.inv t → K.inv (comp.state t)
  rely : ∀ t t', K'.rely t t' → comp.state t' = comp.state t ∨ K.rely (comp.state t) (comp.state t')
  ok : ∀ h c r e, K.ok q h c r e
  guar : ∀ h h' c r t', P c → h.now = comp.state h'.now → K'.inv h'.now →
    T.exec h'.now (comp.call c) r t' → K.guar q h c (comp.answer c r) (comp.state t') →
      K'.guar q' h' (comp.call c) r t'

/-- The others' steps, as the component sees them. The induction is on these steps: each
respects the rely of the larger system, and so, by the lift, that of the component. -/
theorem Component.extends (comp : Component S T) {K : Contract S} {K' : Contract T}
    (hinv : ∀ t, K'.inv t → K.inv (comp.state t))
    (hrely : ∀ t t', K'.rely t t' →
      comp.state t' = comp.state t ∨ K.rely (comp.state t) (comp.state t'))
    {h' h'' : History τ D R'} (hx : History.Extends K'.inv K'.rely h' h'') {h : History σ C R}
    (hnow : h.now = comp.state h'.now) :
    ∃ h₁, History.Extends K.inv K.rely h h₁ ∧ h₁.now = comp.state h''.now := by
  induction hx with
  | refl => exact ⟨h, .refl h, hnow⟩
  | @other h'' t hx hr hi ih =>
      obtain ⟨h₁, hx₁, hnow₁⟩ := ih
      rcases hrely _ _ hr with hsame | hmoved
      · exact ⟨h₁, hx₁, hnow₁.trans hsame.symm⟩
      · rw [← hnow₁] at hmoved
        exact ⟨.other h₁ (comp.state t), hx₁.other hmoved (hinv t hi), rfl⟩

/-- **A method of the component in the larger system.** -/
theorem Contract.Along.lift {comp : Component S T} {K : Contract S} {K' : Contract T} {q : Q}
    {q' : Q'} {P : C → Prop} {P' : β → Prop} (hl : K.Lifts q comp K' q' P) {f : ε → ε'}
    {p : Prog C R ε β} {post : Except ε β → History σ C R → Prop} {h : History σ C R}
    {h' : History τ D R'} (hp : K.Along q p h post) (hcalls : p.Obeys P P')
    (hnow : h.now = comp.state h'.now) :
    K'.Along q' ((p.mapThrow f).interpret comp.use) h' fun o h'' =>
      ∃ o₁ h₁, o = o₁.mapError f ∧ h₁.now = comp.state h''.now ∧ post o₁ h₁ := by
  induction p generalizing h h' with
  | ret a => exact ⟨.ok a, h, rfl, hnow, hp⟩
  | throw x => exact ⟨.error x, h, rfl, hnow, hp⟩
  | call c k ih =>
      intro h'' hx hi r t ht _
      obtain ⟨h₁, hx₁, hnow₁⟩ := comp.extends hl.inv hl.rely hx hnow
      have hinv : K.inv h₁.now := by
        rw [hnow₁]
        exact hl.inv _ hi
      have hexec : S.exec h₁.now c (comp.answer c r) (comp.state t) := by
        rw [hnow₁]
        exact comp.exec ht
      obtain ⟨hguar, hrest⟩ := hp h₁ hx₁ hinv _ _ hexec (hl.ok _ _ _ _)
      exact ⟨hl.guar _ _ _ _ _ hcalls.1 hnow₁ hi ht hguar, ih _ hrest (hcalls.2 _) rfl⟩

end

end Concurrency
