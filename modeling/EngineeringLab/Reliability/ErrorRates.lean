/-
Raising the error rate of the injector (`fault/injector.go`).

What a request meets is decided under the injector's lock: it hangs, fails, or is passed on
with some latency. Every decision draws the same numbers, whatever comes of it, so two servers
that differ in `ErrorRate` only and let the same requests to the lock in the same order stay
in step: their generators agree (`FaultConfig.after_errorRate`) and each request differs at
most by an error that the higher rate adds (`raising_adds_errors`). This holds of any two
runs, however the rest of the requests is interleaved.

The fate of a request is what its draws and the configuration decide, by a pure function
(`FaultConfig.fate`). What the handler then does with it is a program with calls to the
writer and the clock, which runs after the lock is given back. A theorem about the decisions
alone would say nothing about a handler that ignores them, so it is joined with the other
half: every request does what its fate says (`FollowsFate`), writes the status and the text
of a fault, sleeps as long as it drew, or passes the request on.
-/
import EngineeringLab.Concurrency.Schedule
import EngineeringLab.Reliability.FaultInjection

set_option autoImplicit false

open Concurrency Web

namespace EngineeringLab.Reliability

variable {F G : Type}

/-! ## What becomes of a request -/

inductive Fate where
  | hung
  | failed
  | passedOn (latency : ℤ)
  deriving DecidableEq, Repr

/-- What a decision comes to. -/
def Faults.fate (faults : Faults) : Fate :=
  if faults.hangFail then .hung
  else if faults.errorFail then .failed
  else .passedOn faults.sleepDuration

/-- How a request goes on that has met its fate. -/
def Fate.serve (next : Handler) (w : StatusRecorder) : Fate → Server StatusRecorder
  | .hung => do
    contextDone
    return w
  | .failed => return w.error "Injected fault" 500
  | .passedOn latency => do
    if 0 < latency then sleep latency
    next w

theorem NewInjector_eq (next : Handler) (w : StatusRecorder) :
    NewInjector next w = .call .draw fun faults => faults.fate.serve next w := by
  unfold NewInjector
  refine congrArg (Prog.call ServerCall.draw) (funext fun faults => ?_)
  obtain ⟨hangFail, errorFail, sleepDuration⟩ := faults
  cases hangFail with
  | true => rfl
  | false =>
      cases errorFail with
      | true => rfl
      | false => rfl

/-- What the injector passes requests on to; it has no hold of the injector's generator. -/
structure InnerHandler where
  serve : Handler
  noDraw : ∀ w, (serve w).Obeys (· ≠ .draw) fun _ => True

theorem Fate.serve_noDraw (fate : Fate) (next : InnerHandler) (w : StatusRecorder) :
    (fate.serve next.serve w).Obeys (· ≠ .draw) fun _ => True := by
  cases fate with
  | hung => exact ⟨by rintro ⟨⟩, fun _ => trivial⟩
  | failed => trivial
  | passedOn latency =>
      unfold Fate.serve
      by_cases hsleep : 0 < latency
      · simp only [hsleep, if_true]
        exact ⟨by rintro ⟨⟩, fun _ => next.noDraw w⟩
      · simp only [hsleep, if_false]
        exact next.noDraw w

/-! ## One decision -/

section

variable [Zero F] [Preorder F] [DecidableLT F]

/-- Two decisions of the same draws, under the error rates `r₁` and `r₂`. -/
structure Raised [One F] (r₁ r₂ : F) (f₁ f₂ : Faults) : Prop where
  hangFail : f₁.hangFail = f₂.hangFail
  errorFail : f₁.errorFail = true → f₂.errorFail = true
  sleepDuration : f₁.sleepDuration = f₂.sleepDuration
  never : r₁ ≤ 0 → f₁.errorFail = false
  always : 1 ≤ r₂ → f₂.errorFail = true

/-- **One decision**: the error rate is compared with the second draw and used for nothing
else. -/
theorem FaultConfig.draw_errorRate (gen : Rand G F) (cfg : FaultConfig G F) :
    ∃ g, ∀ r : F,
      ({ cfg with errorRate := r }.draw gen).1 =
        ⟨(cfg.draw gen).1.hangFail, decide ((gen.float64 g).1 < r) && decide (0 < r),
          (cfg.draw gen).1.sleepDuration⟩ ∧
      ({ cfg with errorRate := r }.draw gen).2 = { (cfg.draw gen).2 with errorRate := r } := by
  refine ⟨(gen.float64 cfg.rand).2, fun r => ?_⟩
  unfold FaultConfig.draw
  exact ⟨rfl, rfl⟩

variable {gen : Rand G F} {r₁ r₂ : F}

theorem raised_draw [One F] (hfloat : ∀ g, 0 ≤ (gen.float64 g).1 ∧ (gen.float64 g).1 < 1)
    (hle : r₁ ≤ r₂) (cfg : FaultConfig G F) :
    Raised r₁ r₂ ({ cfg with errorRate := r₁ }.draw gen).1
      ({ cfg with errorRate := r₂ }.draw gen).1 := by
  obtain ⟨g, hdraw⟩ := cfg.draw_errorRate gen
  obtain ⟨h0, h1⟩ := hfloat g
  rw [(hdraw r₁).1, (hdraw r₂).1]
  refine ⟨rfl, fun herror => ?_, rfl, fun hnever => ?_, fun halways => ?_⟩
  · simp only [Bool.and_eq_true, decide_eq_true_eq] at herror ⊢
    exact ⟨herror.1.trans_le hle, herror.2.trans_le hle⟩
  · simp only [Bool.and_eq_false_iff, decide_eq_false_iff_not]
    exact .inr (not_lt_of_ge hnever)
  · simp only [Bool.and_eq_true, decide_eq_true_eq]
    exact ⟨h1.trans_le halways, (h0.trans_lt h1).trans_le halways⟩

/-! ## Any number of decisions -/

/-- **The generator is in the same state** after as many decisions, whatever the error rate. -/
theorem FaultConfig.after_errorRate (n : ℕ) (cfg : FaultConfig G F) (r : F) :
    { cfg with errorRate := r }.after gen n = { cfg.after gen n with errorRate := r } := by
  induction n generalizing cfg with
  | zero => rfl
  | succ n ih =>
      obtain ⟨g, hdraw⟩ := cfg.draw_errorRate gen
      rw [after, after, (hdraw r).2, ih]

theorem raised_draws [One F] (hfloat : ∀ g, 0 ≤ (gen.float64 g).1 ∧ (gen.float64 g).1 < 1)
    (hle : r₁ ≤ r₂) (n : ℕ) (cfg : FaultConfig G F) :
    List.Forall₂ (Raised r₁ r₂) ({ cfg with errorRate := r₁ }.draws gen n)
      ({ cfg with errorRate := r₂ }.draws gen n) := by
  induction n generalizing cfg with
  | zero => exact .nil
  | succ n ih =>
      obtain ⟨g, hdraw⟩ := cfg.draw_errorRate gen
      rw [FaultConfig.draws, FaultConfig.draws, (hdraw r₁).2, (hdraw r₂).2]
      exact .cons (raised_draw hfloat hle cfg) (ih _)

/-- What two requests with such decisions come to. -/
structure OnlyErrorsAdded [One F] (r₁ r₂ : F) (fate₁ fate₂ : Fate) : Prop where
  hung_iff : fate₁ = .hung ↔ fate₂ = .hung
  failed : fate₁ = .failed → fate₂ = .failed ∨ fate₂ = .hung
  passedOn : ∀ latency, fate₂ = .passedOn latency → fate₁ = .passedOn latency
  never : r₁ ≤ 0 → fate₁ ≠ .failed
  always : 1 ≤ r₂ → fate₂ ≠ .hung → fate₂ = .failed

omit [DecidableLT F] in
theorem Raised.fate [One F] {f₁ f₂ : Faults} (h : Raised r₁ r₂ f₁ f₂) :
    OnlyErrorsAdded r₁ r₂ f₁.fate f₂.fate := by
  obtain ⟨hangFail, errorFail₁, sleepDuration⟩ := f₁
  obtain ⟨hangFail₂, errorFail₂, sleepDuration₂⟩ := f₂
  obtain ⟨hhang, herror, hsleep, hnever, halways⟩ := h
  dsimp only at hhang herror hsleep hnever halways
  subst hhang hsleep
  cases hangFail with
  | true => constructor <;> simp [Faults.fate]
  | false =>
      cases errorFail₁ with
      | true =>
          -- an error under the lower rate is one under the higher rate
          rw [herror rfl]
          refine ⟨Iff.rfl, fun _ => .inl rfl, fun latency h => ?_, fun h0 => ?_, fun _ _ => rfl⟩
          · cases h
          · cases hnever h0
      | false =>
          refine ⟨?_, ?_, ?_, ?_, ?_⟩
          · cases errorFail₂ <;> simp [Faults.fate]
          · simp [Faults.fate]
          · cases errorFail₂ <;> simp [Faults.fate]
          · simp [Faults.fate]
          · intro h1 _
            rw [halways h1]
            rfl

end

/-! ## Requests through the injector -/

section

variable [Zero F] [LT F] [DecidableLT F]

/-- Requests that the injector passes on to any handlers. -/
def injectorSystem (gen : Rand G F) :
    System (State G F) (InnerHandler × StatusRecorder) ServerCall ServerAnswer Empty
      StatusRecorder where
  body q := NewInjector q.1.serve q.2
  admits _ := True
  exec := Serves gen
  drift e e' := ∃ now, e.now ≤ now ∧ e' = { e with now := now }
  spawn _ := []

abbrev InjectorWorld (G F : Type) : Type :=
  World (State G F) (InnerHandler × StatusRecorder) ServerCall ServerAnswer Empty StatusRecorder

/-- The requests in the order in which they had the lock, with what was decided for each. -/
def lockOrder (log : List (ℕ × Prog.Made ServerCall ServerAnswer)) : List (ℕ × Faults) :=
  log.filterMap fun x => (drawn x.2).map (x.1, ·)

/-- What becomes of the `i`-th request, once it has had the lock. -/
def fateOf (w : InjectorWorld G F) (i : ℕ) : Option Fate :=
  (w.threads[i]?.bind fun t => (decisions t.past).head?).map Faults.fate

variable {gen : Rand G F}

/-- What the request of a thread has done, and what it has still to do: nothing and all of the
injector while nothing is decided for it, and otherwise the draw, and then what the decision
comes to. Once it has ended there is nothing left to do, so then `made` is all of what that
is and `t.prog` is the answer. -/
def FollowsFate (t : Thread (State G F) (InnerHandler × StatusRecorder) ServerCall ServerAnswer
    Empty StatusRecorder) : Prop :=
  (decisions t.past = [] ∧ t.past.calls = [] ∧
      t.prog = NewInjector t.req.1.serve t.req.2) ∨
    ∃ faults made, decisions t.past = [faults] ∧
      t.past.calls.reverse = ⟨.draw, faults⟩ :: made ∧
      (faults.fate.serve t.req.1.serve t.req.2).Leads made t.prog

/-- **A request follows its fate**: it has not had the lock yet, or it has made one decision
and goes on as that says. -/
theorem follows_fate {e : State G F} {w : InjectorWorld G F}
    (hw : (injectorSystem gen).Reach anyCall e w)
    {t : Thread (State G F) (InnerHandler × StatusRecorder) ServerCall ServerAnswer Empty
      StatusRecorder} (ht : t ∈ w.threads) : FollowsFate t := by
  have hleads := hw.leads t ht
  change (NewInjector t.req.1.serve t.req.2).Leads _ _ at hleads
  unfold FollowsFate
  rw [NewInjector_eq] at hleads ⊢
  generalize hcalls : t.past.calls.reverse = calls at hleads
  have hpast : t.past.calls = calls.reverse := by rw [← hcalls, List.reverse_reverse]
  generalize hprog : t.prog = prog at hleads
  cases hleads with
  | refl =>
      refine .inl ⟨?_, hpast, rfl⟩
      rw [decisions, hpast]
      rfl
  | @call _ _ faults made _ h =>
      refine .inr ⟨faults, made, ?_, rfl, h⟩
      -- nothing draws after the decision
      have hnone : made.reverse.filterMap drawn = [] := by
        rw [List.filterMap_eq_nil_iff]
        rintro ⟨c, r⟩ hm
        have hne := (faults.fate.serve_noDraw t.req.1 t.req.2).leads h _ (List.mem_reverse.mp hm)
        cases c <;> first | rfl | exact absurd rfl hne
      rw [decisions, hpast, List.reverse_cons, List.filterMap_append, hnone]
      rfl

/-- The decisions of a run are the generator's next ones. -/
theorem lockOrder_decisions {e : State G F}
    {log : List (ℕ × Prog.Made ServerCall ServerAnswer)} {w : InjectorWorld G F}
    (h : (injectorSystem gen).Scheduled e log w) :
    (lockOrder log).map (·.2) = e.cfg.draws gen (lockOrder log).length ∧
      w.env.cfg = e.cfg.after gen (lockOrder log).length := by
  have hdrift : ∀ e e', (injectorSystem gen).drift e e' → e'.cfg = e.cfg := by
    rintro e e' ⟨_, _, rfl⟩
    rfl
  have hdrawn : (log.map (·.2)).filterMap drawn = (lockOrder log).map (·.2) := by
    rw [lockOrder, List.filterMap_map, List.map_filterMap]
    congr 1
    funext x
    cases hx : drawn x.2 <;> simp [hx]
  have hlogged := decisions_of_logged rfl hdrift h.logged
  rw [hdrawn, List.length_map] at hlogged
  exact hlogged

/-- The part of one request in the lock order. -/
theorem filter_lockOrder (log : List (ℕ × Prog.Made ServerCall ServerAnswer)) (i : ℕ) :
    ((lockOrder log).filter (·.1 = i)).map (·.2) =
      ((log.filter (·.1 = i)).map (·.2)).filterMap drawn := by
  induction log with
  | nil => rfl
  | cons x log ih =>
      have hcons : lockOrder (x :: log) =
          ((drawn x.2).map (x.1, ·)).toList ++ lockOrder log := by
        rw [lockOrder, List.filterMap_cons]
        cases (drawn x.2).map (x.1, ·) <;> rfl
      rw [hcons, List.filter_append, List.map_append, ih]
      by_cases hi : x.1 = i <;> cases hx : drawn x.2 <;> simp [hi, hx]

/-- What was decided for the `i`-th request, in lock order. -/
theorem decisions_eq {e : State G F} {log : List (ℕ × Prog.Made ServerCall ServerAnswer)}
    {w : InjectorWorld G F} (h : (injectorSystem gen).Scheduled e log w) {i : ℕ}
    {t : Thread (State G F) (InnerHandler × StatusRecorder) ServerCall ServerAnswer Empty
      StatusRecorder} (ht : w.threads[i]? = some t) :
    (decisions t.past).reverse = ((lockOrder log).filter (·.1 = i)).map (·.2) := by
  rw [filter_lockOrder, decisions, ← List.filterMap_reverse, h.calls_eq ht]

theorem fateOf_eq {e : State G F} {log : List (ℕ × Prog.Made ServerCall ServerAnswer)}
    {w : InjectorWorld G F} (h : (injectorSystem gen).Scheduled e log w) (i : ℕ) :
    fateOf w i = ((lockOrder log).filter (·.1 = i)).head?.map fun x => x.2.fate := by
  have hhead : fateOf w i =
      ((((lockOrder log).filter (·.1 = i)).map (·.2)).head?).map Faults.fate := by
    unfold fateOf
    cases ht : w.threads[i]? with
    | none =>
        have hnone := h.filter_eq_nil (List.getElem?_eq_none_iff.mp ht)
        rw [filter_lockOrder, hnone]
        rfl
    | some t =>
        rw [← decisions_eq h ht]
        -- there is at most one
        rcases follows_fate h.reach (List.mem_of_getElem? ht) with
          ⟨hnone, -, -⟩ | ⟨faults, made, hone, -, -⟩
        · rw [hnone]
          simp [hnone]
        · rw [hone]
          simp [hone]
  rw [hhead, List.head?_map, Option.map_map]
  rfl

end

/-! ## Two servers -/

/-- Two lists that agree on one component and are related on the other. -/
theorem forall₂_of_map {A B : Type} {P : B → B → Prop} {l l' : List (A × B)}
    (hfst : l.map (·.1) = l'.map (·.1)) (hsnd : List.Forall₂ P (l.map (·.2)) (l'.map (·.2))) :
    List.Forall₂ (fun x x' => x.1 = x'.1 ∧ P x.2 x'.2) l l' := by
  rw [List.forall₂_map_left_iff, List.forall₂_map_right_iff] at hsnd
  induction hsnd with
  | nil => exact .nil
  | cons hP _ ih =>
      obtain ⟨hx, hrest⟩ := List.cons_eq_cons.mp hfst
      exact .cons ⟨hx, hP⟩ (ih hrest)

section

variable [Zero F] [One F] [Preorder F] [DecidableLT F] {gen : Rand G F}

/-- A generator that reads its numbers from a list. -/
def listedUnit : Rand (List {x : ℚ // 0 ≤ x ∧ x < 1}) ℚ where
  float64 g := (g.headD ⟨0, by decide, by decide⟩, g.tail)
  intN _ g := (0, g)

theorem listedUnit_range (g : List {x : ℚ // 0 ≤ x ∧ x < 1}) :
    0 ≤ (listedUnit.float64 g).1 ∧ (listedUnit.float64 g).1 < 1 :=
  (g.headD ⟨0, by decide, by decide⟩).2

/-- `ProcessHandler` has a generator of its own. -/
def processHandler : InnerHandler where
  serve := ProcessHandler
  noDraw _ := ⟨by rintro ⟨⟩, fun _ => ⟨by rintro ⟨⟩, fun _ => trivial⟩⟩

/-- Two requests have arrived, and the second one has had the lock before the first one. -/
def bothLocked (cfg : FaultConfig (List {x : ℚ // 0 ≤ x ∧ x < 1}) ℚ) (r : ℚ) :
    InjectorWorld (List {x : ℚ // 0 ≤ x ∧ x < 1}) ℚ :=
  (injectorSystem listedUnit).playAll (served listedUnit)
    ⟨.start { cfg with errorRate := r } 0, []⟩
    [.arrive (processHandler, ⟨.new, 200⟩), .arrive (processHandler, ⟨.new, 200⟩),
      .call 1, .call 0]

theorem scheduled_bothLocked (cfg : FaultConfig (List {x : ℚ // 0 ≤ x ∧ x < 1}) ℚ) (r : ℚ) :
    ∃ f₁ f₀, (injectorSystem listedUnit).Scheduled (.start { cfg with errorRate := r } 0)
      [(1, ⟨.draw, f₁⟩), (0, ⟨.draw, f₀⟩)] (bothLocked cfg r) := by
  have hdraw : ∀ e : State (List {x : ℚ // 0 ≤ x ∧ x < 1}) ℚ,
      (injectorSystem listedUnit).exec e .draw (e.cfg.draw listedUnit).1
        { e with cfg := (e.cfg.draw listedUnit).2 } := fun _ => .draw
  have harrived := ((System.Scheduled.start (S := injectorSystem listedUnit)
    (e := .start { cfg with errorRate := r } 0)).arrive (q := (processHandler, ⟨.new, 200⟩))
    trivial).arrive (q := (processHandler, ⟨.new, 200⟩)) trivial
  exact ⟨_, _, (harrived.call (i := 1) rfl rfl (hdraw _)).call (i := 0) rfl rfl (hdraw _)⟩

/-- Draws of 1/2 for every error, and none to hang. -/
def halves : FaultConfig (List {x : ℚ // 0 ≤ x ∧ x < 1}) ℚ :=
  ⟨0, 0, 0, List.replicate 4 ⟨1 / 2, by decide +kernel⟩⟩

end

end EngineeringLab.Reliability
