/-
Fork and join: `sync.WaitGroup`.

A parent adds the number of its workers to the group, starts them, and waits; every worker is
`go func() { defer wg.Done(); work() }()`. When the wait ends, all workers have: each `Done` is
the last thing its worker does, so while one of them is still at work the counter is positive
(`Forked`). What the parent reads after that nobody changes any more, and its result is that of
its remaining program run alone on the final state (`joined`). And it does get there, from every
state a run can reach, if no call of a worker waits for ever (`exists_joined`).

The counter is an `int32`: the parent's number must be below `2 ^ 31`.

The parent's program is its own loop of `Add` and `go`, followed by the wait (`Forks`), and
the workers are programs that do their work and then report. Between them stands the
invariant `Forked`, with one case for each part of the parent's way. Each kind of step has
its own lemma: the parent's, a worker's, and the environment's.

That the wait ends is shown by giving the schedule: every worker runs to its end, one after
the other, and then the counter is zero.
-/
import EngineeringLab.Concurrency.OwnCalls
import Mathlib.Tactic.Ring

set_option autoImplicit false

namespace Concurrency

variable {σ Q C : Type} {R : C → Type} {ε α : Type}

/-! ## The programs of a world -/

/-- What is left of the requests' programs, in the order of their arrival. -/
def World.progs (w : World σ Q C R ε α) : List (Prog C R ε α) := w.threads.map (·.prog)

/-- What a step does to the environment and to the programs, the histories left out. What a
program can still do is decided by these two. -/
inductive System.Moves (S : System σ Q C R ε α) (e : σ) (ps : List (Prog C R ε α)) :
    σ → List (Prog C R ε α) → Prop
  | arrive {q : Q} (hq : S.admits q) : Moves S e ps e (ps ++ [S.body q])
  | drift {e' : σ} (hd : S.drift e e') : Moves S e ps e' ps
  | call {e' : σ} {i : ℕ} {c : C} {k : R c → Prog C R ε α} {r : R c}
      (hi : ps[i]? = some (.call c k)) (he : S.exec e c r e') :
      Moves S e ps e' (ps.set i (k r) ++ (S.spawn c).map S.body)

section

variable {S : System σ Q C R ε α} {w w' : World σ Q C R ε α}

theorem System.progs_advance {i : ℕ} {t : Thread σ Q C R ε α} {c : C} {k : R c → Prog C R ε α}
    {r : R c} {e : σ} :
    (⟨e, S.advance w i t c k r e⟩ : World σ Q C R ε α).progs =
      w.progs.set i (k r) ++ (S.spawn c).map S.body := by
  simp [World.progs, System.advance, System.opened, List.map_set, Function.comp_def]

theorem System.Step.moves {ok : Q → History σ C R → (c : C) → R c → σ → Prop}
    (h : S.Step ok w w') : S.Moves w.env w.progs w'.env w'.progs := by
  cases h with
  | @arrive q hq =>
      have hprogs : (⟨w.env, w.threads ++ [S.opened w.env q]⟩ : World σ Q C R ε α).progs =
          w.progs ++ [S.body q] := by simp [World.progs, System.opened]
      rw [hprogs]
      exact .arrive hq
  | @drift e he =>
      have hprogs : (⟨e, w.threads.map (·.see e)⟩ : World σ Q C R ε α).progs = w.progs := by
        simp [World.progs, Function.comp_def]
      rw [hprogs]
      exact .drift he
  | @call i t c k r e ht hp he hok =>
      rw [progs_advance]
      refine .call ?_ he
      rw [World.progs, List.getElem?_map, ht, ← hp]
      rfl

/-- A program at a call that the environment answers can make it. -/
theorem System.exists_step {i : ℕ} {c : C} {k : R c → Prog C R ε α} {r : R c} {e : σ}
    (hi : w.progs[i]? = some (.call c k)) (he : S.exec w.env c r e) :
    ∃ w' : World σ Q C R ε α, S.Step anyCall w w' ∧ w'.env = e ∧
      w'.progs = w.progs.set i (k r) ++ (S.spawn c).map S.body := by
  rw [World.progs, List.getElem?_map] at hi
  obtain ⟨t, ht, hp⟩ := Option.map_eq_some_iff.mp hi
  exact ⟨_, .call ht hp he trivial, rfl, progs_advance⟩

end

/-! ## The group -/

/-- `sync.WaitGroup`: its counter, an `int32`. The number of goroutines that wait is no part
of it, as each only waits for zero. -/
structure WaitGroup where
  counter : ℤ
  deriving DecidableEq, Repr

namespace WaitGroup

def new : WaitGroup := ⟨0⟩

/-- `wg.Add(delta)`, which panics (`none`) when the counter gets negative. -/
def add (wg : WaitGroup) (delta : ℤ) : Option WaitGroup :=
  let counter := (wg.counter + delta).bmod (2 ^ 32)
  if counter < 0 then none else some ⟨counter⟩

/-- `wg.Done()`. -/
def done (wg : WaitGroup) : Option WaitGroup := wg.add (-1)

theorem add_eq {wg : WaitGroup} {delta : ℤ} (h0 : 0 ≤ wg.counter + delta)
    (hsmall : wg.counter + delta < 2 ^ 31) : wg.add delta = some ⟨wg.counter + delta⟩ := by
  have hwrap : (wg.counter + delta).bmod (2 ^ 32) = wg.counter + delta :=
    Int.bmod_eq_of_le (by omega) (by omega)
  unfold add
  rw [hwrap]
  dsimp only
  rw [if_neg (not_lt.mpr h0)]

theorem add_eq_none {wg : WaitGroup} {delta : ℤ} (h0 : wg.counter + delta < 0)
    (hsmall : -2 ^ 31 ≤ wg.counter + delta) : wg.add delta = none := by
  have hwrap : (wg.counter + delta).bmod (2 ^ 32) = wg.counter + delta :=
    Int.bmod_eq_of_le (by omega) (by omega)
  unfold add
  rw [hwrap]
  exact if_pos h0

end WaitGroup

/-- A call on what the workers share, or one that is about the group or starts a worker. -/
inductive GroupCall (Q C : Type) : Type where
  | shared (c : C)
  | go (q : Q)
  | add (delta : ℤ)
  | done
  | wait

/-- `Add` and `Done` answer whether they did not panic. -/
abbrev GroupAnswer (R : C → Type) : GroupCall Q C → Type
  | .shared c => R c
  | .go _ => Unit
  | .add _ => Bool
  | .done => Bool
  | .wait => Unit

/-- The group and what the workers share. -/
structure Grouped (σ : Type) where
  wg : WaitGroup
  env : σ

/-- What each call answers and does. `Wait` only goes on when the counter is zero, and until
then it has no answer and so no step. -/
inductive GroupServes (exec : σ → (c : C) → R c → σ → Prop) (s : Grouped σ) :
    (c : GroupCall Q C) → GroupAnswer R c → Grouped σ → Prop
  | shared {c : C} {r : R c} {e : σ} (he : exec s.env c r e) :
      GroupServes exec s (.shared c) r ⟨s.wg, e⟩
  | go {q : Q} : GroupServes exec s (.go q) () s
  | add {delta : ℤ} {wg : WaitGroup} (h : s.wg.add delta = some wg) :
      GroupServes exec s (.add delta) true ⟨wg, s.env⟩
  | addPanics {delta : ℤ} (h : s.wg.add delta = none) : GroupServes exec s (.add delta) false s
  | done {wg : WaitGroup} (h : s.wg.done = some wg) : GroupServes exec s .done true ⟨wg, s.env⟩
  | donePanics (h : s.wg.done = none) : GroupServes exec s .done false s
  | wait (h : s.wg.counter = 0) : GroupServes exec s .wait () s

/-- A program that does not touch the group. -/
def Prog.inGroup : Prog C R ε α → Prog (GroupCall Q C) (GroupAnswer R) ε α
  | .ret a => .ret a
  | .throw x => .throw x
  | .call c k => .call (.shared c) fun r => (k r).inGroup

/-- `go func() { defer wg.Done(); … }()`: the group is told when the worker ends, by a
return or by a panic, and a panic of `Done` itself takes the place of what was thrown. -/
def Prog.deferDone (panic : ε) : Prog C R ε α → Prog (GroupCall Q C) (GroupAnswer R) ε α
  | .ret a => .call .done fun ok => if ok then .ret a else .throw panic
  | .throw x => .call .done fun ok => .throw (if ok then x else panic)
  | .call c k => .call (.shared c) fun r => (k r).deferDone panic

theorem Prog.Obeys.inGroup {P : GroupCall Q C → Prop} {p : Prog C R ε α}
    (hp : p.Obeys (fun c => P (.shared c)) fun _ => True) :
    (p.inGroup : Prog (GroupCall Q C) (GroupAnswer R) ε α).Obeys P fun _ => True := by
  induction p with
  | ret a => trivial
  | throw x => trivial
  | call c k ih => exact ⟨hp.1, fun r => ih r (hp.2 r)⟩

/-! ## Fork and join -/

/-- A parent with its workers: the program of the parent, that of each worker, and what the
calls to the things that they share do. -/
structure ForkJoin (σ Q C : Type) (R : C → Type) (ε α : Type) where
  main : Prog (GroupCall Q C) (GroupAnswer R) ε α
  work : Q → Prog C R ε α
  exec : σ → (c : C) → R c → σ → Prop
  drift : σ → σ → Prop
  panic : ε

namespace ForkJoin

/-- The parent is the request `none`; no request comes from outside. -/
def system (F : ForkJoin σ Q C R ε α) :
    System (Grouped σ) (Option Q) (GroupCall Q C) (GroupAnswer R) ε α where
  body
    | none => F.main
    | some q => (F.work q).deferDone F.panic
  admits _ := False
  exec := GroupServes F.exec
  drift s s' := s'.wg = s.wg ∧ F.drift s.env s'.env
  spawn
    | .go q => [some q]
    | _ => []

/-- A parent, its workers, and what they share. -/
abbrev Worlds (σ Q C : Type) (R : C → Type) (ε α : Type) : Type :=
  World (Grouped σ) (Option Q) (GroupCall Q C) (GroupAnswer R) ε α

variable (F : ForkJoin σ Q C R ε α)

/-- The worlds that the program can reach: the parent is there from the start, and every
other thread is one that it has started. -/
def Runs (e : σ) (w : Worlds σ Q C R ε α) : Prop :=
  Relation.ReflTransGen (F.system.Step anyCall) ⟨⟨.new, e⟩, [F.system.opened ⟨.new, e⟩ none]⟩ w

/-- The same, the program being the request that somebody makes. -/
def asked : System (Grouped σ) (Option Q) (GroupCall Q C) (GroupAnswer R) ε α :=
  { F.system with admits := fun q => q = none }

variable {F}

theorem Runs.reach {e : σ} {w : Worlds σ Q C R ε α} (hw : F.Runs e w) :
    F.asked.Reach anyCall ⟨.new, e⟩ w := by
  have hsteps : Relation.ReflTransGen (F.asked.Step anyCall)
      ⟨⟨.new, e⟩, [F.asked.opened ⟨.new, e⟩ none]⟩ w := by
    refine Relation.ReflTransGen.mono ?_ _ _ hw
    intro u v hstep
    cases hstep with
    | arrive hq => exact hq.elim
    | drift he => exact .drift he
    | call ht hp he hok => exact .call ht hp he hok
  exact hsteps.head (.arrive rfl)

/-- The parent is the first request, and the others are workers: nobody else can arrive, and
only the parent starts any. -/
theorem Runs.reqs {e : σ} {w : Worlds σ Q C R ε α} (hw : F.Runs e w) :
    ∃ t ts, w.threads = t :: ts ∧ t.req = none ∧ ∀ t ∈ ts, ∃ q, t.req = some q := by
  unfold Runs at hw
  induction hw with
  | refl => exact ⟨_, [], rfl, rfl, fun t ht => by cases ht⟩
  | @tail u v _ hstep ih =>
      obtain ⟨t, ts, hthreads, ht, hts⟩ := ih
      -- workers stay where they are in the list, and new ones come at its end
      have hsee : ∀ e, ∀ t ∈ ts.map (·.see e), ∃ q, t.req = some q := by
        intro e t' ht'
        obtain ⟨t₀, ht₀, rfl⟩ := List.mem_map.mp ht'
        rw [t₀.req_see]
        exact hts t₀ ht₀
      cases hstep with
      | arrive hq => exact hq.elim
      | @drift e he =>
          refine ⟨t.see e, ts.map (·.see e), ?_, by rw [t.req_see, ht], hsee e⟩
          rw [hthreads]
          rfl
      | @call i t' c k r e ht' hp he hok =>
          have hspawn : ∀ t ∈ (F.system.spawn c).map (F.system.opened e), ∃ q, t.req = some q := by
            intro t₁ ht₁
            obtain ⟨q, hq, rfl⟩ := List.mem_map.mp ht₁
            cases c with
            | go q' => exact ⟨q', List.mem_singleton.mp hq⟩
            | shared c => cases hq
            | add delta => cases hq
            | done => cases hq
            | wait => cases hq
          rw [hthreads] at ht'
          cases i with
          | zero =>
              obtain rfl : t = t' := by simpa using ht'
              refine ⟨⟨t.req, k r, .own t.past c r e⟩,
                ts.map (·.see e) ++ (F.system.spawn c).map (F.system.opened e), ?_, ht, ?_⟩
              · rw [System.advance, hthreads]
                rfl
              · exact fun t₁ ht₁ => (List.mem_append.mp ht₁).elim (hsee e t₁) (hspawn t₁)
          | succ i =>
              rw [List.getElem?_cons_succ] at ht'
              refine ⟨t.see e, (ts.map (·.see e)).set i ⟨t'.req, k r, .own t'.past c r e⟩ ++
                (F.system.spawn c).map (F.system.opened e), ?_, by rw [t.req_see, ht], ?_⟩
              · rw [System.advance, hthreads]
                rfl
              · intro t₁ ht₁
                rcases List.mem_append.mp ht₁ with h | h
                · rcases List.mem_or_eq_of_mem_set h with h | rfl
                  · exact hsee e t₁ h
                  · exact hts t' (List.mem_of_getElem? ht')
                · exact hspawn t₁ h

/-! ### What the parent does -/

/-- The parent adds `n`, starts `n` workers, waits, and goes on as `after`; `launched` says how
many it has started, once it has added their number. -/
def Forks (n : ℕ) (after : Prog C R ε α) :
    Prog (GroupCall Q C) (GroupAnswer R) ε α → Option ℕ → Prop
  | .call (.add delta) k, none => delta = n ∧ Forks n after (k true) (some 0)
  | .call (.go _) k, some launched =>
    launched < n ∧ Forks n after (k ()) (some (launched + 1))
  | .call .wait k, some launched => launched = n ∧ k () = after.inGroup
  | .call (.shared _) k, launched => ∀ r, Forks n after (k r) launched
  | _, _ => False

/-- The group counts the workers that have not ended. -/
structure Counted (F : ForkJoin σ Q C R ε α) (added launched : ℕ) (s : Grouped σ)
    (workers : List (Prog (GroupCall Q C) (GroupAnswer R) ε α)) : Prop where
  shape : ∀ p ∈ workers, p.finished = true ∨ ∃ q : Prog C R ε α, p = q.deferDone F.panic
  length_eq : workers.length = launched
  counter_eq : s.wg.counter + workers.countP Prog.finished = added
  le : launched ≤ added

variable {V : Type} (view : σ → V) (answer : (c : C) → V → R c)

/-- A call that answers what `answer` says and leaves the view alone. -/
def IsRead (F : ForkJoin σ Q C R ε α) (c : C) : Prop :=
  ∀ e r e', F.exec e c r e' → r = answer c (view e) ∧ view e' = view e

/-- What a program that only reads ends with. -/
def readOut (q : Prog C R ε α) (v : V) : Except ε α :=
  (q.run (fun c v => (answer c v, v)) v).1

/-- The invariant, by how far the parent is. -/
inductive Forked (F : ForkJoin σ Q C R ε α) (n : ℕ) (after : Prog C R ε α) (s : Grouped σ) :
    List (Prog (GroupCall Q C) (GroupAnswer R) ε α) → Prop
  | fresh {p : Prog (GroupCall Q C) (GroupAnswer R) ε α} (hp : Forks n after p none)
      (hc : F.Counted 0 0 s []) : Forked F n after s [p]
  | forking {p : Prog (GroupCall Q C) (GroupAnswer R) ε α}
      {workers : List (Prog (GroupCall Q C) (GroupAnswer R) ε α)} {launched : ℕ}
      (hp : Forks n after p (some launched)) (hc : F.Counted n launched s workers) :
      Forked F n after s (p :: workers)
  | joined {q : Prog C R ε α} {workers : List (Prog (GroupCall Q C) (GroupAnswer R) ε α)}
      (hq : q.Obeys (F.IsRead view answer) fun _ => True) (hc : F.Counted n n s workers)
      (hzero : s.wg.counter = 0)
      (hread : readOut answer q (view s.env) = readOut answer after (view s.env)) :
      Forked F n after s (q.inGroup :: workers)

section

variable {F : ForkJoin σ Q C R ε α} {n added launched : ℕ} {after : Prog C R ε α}
  {s s' : Grouped σ} {workers : List (Prog (GroupCall Q C) (GroupAnswer R) ε α)}

theorem Counted.congr (hc : F.Counted added launched s workers) (hwg : s'.wg = s.wg) :
    F.Counted added launched s' workers :=
  ⟨hc.shape, hc.length_eq, by rw [hwg]; exact hc.counter_eq, hc.le⟩

/-- No worker has been started. -/
theorem Counted.none {added : ℕ} (hwg : s.wg.counter = added) : F.Counted added 0 s [] :=
  ⟨fun _ h => (nomatch h), rfl, by simpa using hwg, Nat.zero_le added⟩

/-- While a worker is at work the counter is positive. -/
theorem Counted.pos (hc : F.Counted added launched s workers) {i : ℕ}
    {p : Prog (GroupCall Q C) (GroupAnswer R) ε α} (hi : workers[i]? = some p)
    (hp : p.finished = false) : 0 < s.wg.counter := by
  have hlt : workers.countP Prog.finished < workers.length := by
    refine lt_of_le_of_ne List.countP_le_length fun heq => ?_
    rw [List.countP_eq_length] at heq
    rw [heq p (List.mem_of_getElem? hi)] at hp
    cases hp
  have hcounter := hc.counter_eq
  have hlength := hc.length_eq
  have hle := hc.le
  omega

/-- Another worker's program in the place of one that is at work. -/
theorem Counted.set (hc : F.Counted added launched s workers) {i : ℕ}
    {p p' : Prog (GroupCall Q C) (GroupAnswer R) ε α} (hi : workers[i]? = some p)
    (hp : p.finished = false)
    (hshape : p'.finished = true ∨ ∃ q : Prog C R ε α, p' = q.deferDone F.panic)
    (hcounter : s'.wg.counter + (if p'.finished then 1 else 0) = s.wg.counter) :
    F.Counted added launched s' (workers.set i p') := by
  obtain ⟨hlt, hget⟩ := List.getElem?_eq_some_iff.mp hi
  refine ⟨fun p'' hp'' => ?_, by rw [List.length_set, hc.length_eq], ?_, hc.le⟩
  · rcases List.mem_or_eq_of_mem_set hp'' with h | rfl
    · exact hc.shape p'' h
    · exact hshape
  · have hbefore := hc.counter_eq
    rw [List.countP_set hlt, hget, hp]
    simp only [Bool.false_eq_true, if_false, Nat.sub_zero]
    push_cast
    rw [← hbefore, ← hcounter]
    ring

@[simp] theorem finished_deferDone (panic : ε) (q : Prog C R ε α) :
    (q.deferDone panic : Prog (GroupCall Q C) (GroupAnswer R) ε α).finished = false := by
  cases q <;> rfl

/-- A `Done` does not panic, and the worker that calls it has ended. -/
theorem Counted.done (hc : F.Counted added launched s workers) (hsmall : added < 2 ^ 31) {i : ℕ}
    {k : Bool → Prog (GroupCall Q C) (GroupAnswer R) ε α} {r : Bool}
    (hi : workers[i]? = some (.call .done k)) (hk : (k true).finished = true)
    (he : GroupServes F.exec s (.done : GroupCall Q C) r s') :
    F.Counted added launched s' (workers.set i (k r)) := by
  have hpos := hc.pos hi rfl
  have hcounter := hc.counter_eq
  have hdone : s.wg.done = some ⟨s.wg.counter - 1⟩ := WaitGroup.add_eq (by omega) (by omega)
  cases he with
  | done h =>
      rw [hdone] at h
      cases h
      exact hc.set hi rfl (.inl hk) (by simp [hk])
  | donePanics h =>
      rw [hdone] at h
      cases h

/-- What one worker's step does: a call of its work, or the `Done` at its end. -/
theorem Counted.call (hc : F.Counted added launched s workers) (hsmall : added < 2 ^ 31) {i : ℕ}
    {c : GroupCall Q C} {k : GroupAnswer R c → Prog (GroupCall Q C) (GroupAnswer R) ε α}
    {r : GroupAnswer R c} (hi : workers[i]? = some (.call c k))
    (he : GroupServes F.exec s c r s') :
    F.Counted added launched s' (workers.set i (k r)) ∧ F.system.spawn c = [] := by
  rcases hc.shape _ (List.mem_of_getElem? hi) with hfinished | ⟨q, hq⟩
  · cases hfinished
  · cases q with
    | ret a =>
        cases hq
        exact ⟨hc.done hsmall hi rfl he, rfl⟩
    | throw x =>
        cases hq
        exact ⟨hc.done hsmall hi rfl he, rfl⟩
    | call c' k' =>
        cases hq
        cases he with
        | shared he => exact ⟨hc.set hi rfl (.inr ⟨k' r, rfl⟩) (by simp), rfl⟩

/-- One worker more. -/
theorem Counted.launch (hc : F.Counted n launched s workers) (hlt : launched < n) (q : Q) :
    F.Counted n (launched + 1) s (workers ++ [(F.work q).deferDone F.panic]) := by
  refine ⟨fun p hp => ?_, by simp [hc.length_eq], by simpa using hc.counter_eq, hlt⟩
  rcases List.mem_append.mp hp with h | h
  · exact hc.shape p h
  · exact .inr ⟨F.work q, List.mem_singleton.mp h⟩

/-- When as many were started as were added, the counter is zero only if all have ended. -/
theorem Counted.all_finished (hc : F.Counted n n s workers) (hzero : s.wg.counter = 0) :
    ∀ p ∈ workers, p.finished = true := by
  have hcounter := hc.counter_eq
  have hlength := hc.length_eq
  have hall : workers.countP Prog.finished = workers.length := by omega
  exact List.countP_eq_length.mp hall

end

/-! ### The invariant of a run -/

section

variable {F : ForkJoin σ Q C R ε α} {V : Type} {view : σ → V} {answer : (c : C) → V → R c} {n : ℕ}
  {after : Prog C R ε α} {s s' : Grouped σ}
  {ps ps' : List (Prog (GroupCall Q C) (GroupAnswer R) ε α)}

theorem forked_start (hmain : Forks n after F.main none) (e : σ) :
    F.Forked view answer n after ⟨.new, e⟩ [F.main] :=
  .fresh hmain (Counted.none rfl)

/-- A step of the parent. -/
theorem Forked.parent {p : Prog (GroupCall Q C) (GroupAnswer R) ε α}
    {workers : List (Prog (GroupCall Q C) (GroupAnswer R) ε α)} (hn : n < 2 ^ 31)
    (hafter : after.Obeys (F.IsRead view answer) fun _ => True)
    (hs : F.Forked view answer n after s (p :: workers)) {c : GroupCall Q C}
    {k : GroupAnswer R c → Prog (GroupCall Q C) (GroupAnswer R) ε α} {r : GroupAnswer R c}
    (hp : p = .call c k) (he : GroupServes F.exec s c r s') :
    F.Forked view answer n after s' (k r :: workers ++ (F.system.spawn c).map F.system.body) := by
  cases hs with
  | fresh hforks hc =>
      subst hp
      cases c with
      | shared c =>
          cases he with
          | shared he => exact .fresh (hforks r) (hc.congr rfl)
      | add delta =>
          obtain ⟨rfl, hforks⟩ := hforks
          -- the one `Add`, of all workers at once: it does not wrap around
          have hzero : s.wg.counter = 0 := by simpa using hc.counter_eq
          have hadd : s.wg.add n = some ⟨n⟩ := by
            rw [WaitGroup.add_eq (by omega) (by omega), hzero, zero_add]
          cases he with
          | add h =>
              rw [hadd] at h
              cases h
              exact .forking hforks (Counted.none rfl)
          | addPanics h =>
              rw [hadd] at h
              cases h
      | go q => exact hforks.elim
      | done => exact hforks.elim
      | wait => exact hforks.elim
  | forking hforks hc =>
      subst hp
      cases c with
      | shared c =>
          cases he with
          | shared he =>
              rw [show F.system.spawn (.shared c) = [] from rfl, List.map_nil, List.append_nil]
              exact .forking (hforks r) (hc.congr rfl)
      | add delta => exact hforks.elim
      | go q =>
          cases he with
          | go => exact .forking hforks.2 (hc.launch hforks.1 q)
      | done => exact hforks.elim
      | wait =>
          -- all have been started, and the counter is back at zero: what comes now only reads
          obtain ⟨rfl, hk⟩ := hforks
          cases he with
          | wait h =>
              rw [show F.system.spawn .wait = [] from rfl, List.map_nil, List.append_nil, hk]
              exact .joined hafter hc h rfl
  | @joined q workers hq hc hzero hread =>
      cases q with
      | ret a => cases hp
      | throw x => cases hp
      | call c' k' =>
          cases hp
          cases he with
          | shared he =>
              obtain ⟨hr, hview⟩ := hq.1 _ _ _ he
              rw [show F.system.spawn (.shared c') = [] from rfl, List.map_nil, List.append_nil]
              refine .joined (hq.2 r) (hc.congr rfl) hzero ?_
              rw [hview, ← hread, hr]
              rfl

/-- A step of a worker. -/
theorem Forked.worker {p : Prog (GroupCall Q C) (GroupAnswer R) ε α}
    {workers : List (Prog (GroupCall Q C) (GroupAnswer R) ε α)} (hn : n < 2 ^ 31)
    (hs : F.Forked view answer n after s (p :: workers)) {i : ℕ} {c : GroupCall Q C}
    {k : GroupAnswer R c → Prog (GroupCall Q C) (GroupAnswer R) ε α} {r : GroupAnswer R c}
    (hi : workers[i]? = some (.call c k)) (he : GroupServes F.exec s c r s') :
    F.Forked view answer n after s' (p :: workers.set i (k r)) ∧ F.system.spawn c = [] := by
  cases hs with
  | fresh hp hc => cases hi
  | forking hp hc =>
      obtain ⟨hc', hspawn⟩ := hc.call hn hi he
      exact ⟨.forking hp hc', hspawn⟩
  | joined hq hc hzero hread =>
      -- all workers have ended
      have hfinished := hc.all_finished hzero _ (List.mem_of_getElem? hi)
      cases hfinished

theorem Forked.drift (hs : F.Forked view answer n after s ps) (hwg : s'.wg = s.wg)
    (hview : view s'.env = view s.env) : F.Forked view answer n after s' ps := by
  cases hs with
  | fresh hforks hc => exact .fresh hforks (hc.congr hwg)
  | forking hforks hc => exact .forking hforks (hc.congr hwg)
  | joined hq hc hzero hread =>
      exact .joined hq (hc.congr hwg) (by rw [hwg, hzero]) (by rw [hview, hread])

/-- A step of the parent, of a worker, or of what surrounds them. -/
theorem Forked.moves (hn : n < 2 ^ 31) (hafter : after.Obeys (F.IsRead view answer) fun _ => True)
    (hdrift : ∀ e e', F.drift e e' → view e' = view e)
    (hs : F.Forked view answer n after s ps) (hm : F.system.Moves s ps s' ps') :
    F.Forked view answer n after s' ps' := by
  cases hm with
  | arrive hq => exact hq.elim
  | drift hd => exact hs.drift hd.1 (hdrift _ _ hd.2)
  | @call _ i c k r hi he =>
      obtain ⟨p, workers, rfl⟩ : ∃ p workers, ps = p :: workers := by
        cases hs <;> exact ⟨_, _, rfl⟩
      cases i with
      | zero =>
          rw [List.getElem?_cons_zero, Option.some.injEq] at hi
          exact hs.parent hn hafter hi he
      | succ i =>
          rw [List.getElem?_cons_succ] at hi
          obtain ⟨hs', hspawn⟩ := hs.worker hn hi he
          rw [hspawn, List.map_nil, List.append_nil]
          exact hs'

/-- **The programs of every world that a run reaches.** -/
theorem Runs.forked (hn : n < 2 ^ 31) (hmain : Forks n after F.main none)
    (hafter : after.Obeys (F.IsRead view answer) fun _ => True)
    (hdrift : ∀ e e', F.drift e e' → view e' = view e) {e : σ} {w : Worlds σ Q C R ε α}
    (hw : F.Runs e w) : F.Forked view answer n after w.env w.progs := by
  unfold Runs at hw
  induction hw with
  | refl => exact forked_start hmain e
  | tail _ hstep ih => exact ih.moves hn hafter hdrift hstep.moves

/-- When the parent has ended, so have all workers. -/
theorem Forked.ended {p : Prog (GroupCall Q C) (GroupAnswer R) ε α}
    {workers : List (Prog (GroupCall Q C) (GroupAnswer R) ε α)}
    (hs : F.Forked view answer n after s (p :: workers)) (hp : p.finished = true) :
    workers.length = n ∧ (∀ p ∈ workers, p.finished = true) ∧
      p.outcome = some (readOut answer after (view s.env)) := by
  cases hs with
  | fresh hforks hc =>
      cases p with
      | call c k => cases hp
      | ret a => exact hforks.elim
      | throw x => exact hforks.elim
  | forking hforks hc =>
      cases p with
      | call c k => cases hp
      | ret a => exact hforks.elim
      | throw x => exact hforks.elim
  | @joined q workers hq hc hzero hread =>
      refine ⟨hc.length_eq, hc.all_finished hzero, ?_⟩
      rw [← hread]
      cases q with
      | call c k => cases hp
      | ret a => rfl
      | throw x => rfl

/-- **The join**: when the parent has returned, so have all workers, and its result is that of
what it does after the join, on the state that is left. -/
theorem joined (hn : n < 2 ^ 31) (hmain : Forks n after F.main none)
    (hafter : after.Obeys (F.IsRead view answer) fun _ => True)
    (hdrift : ∀ e e', F.drift e e' → view e' = view e) {e : σ} {w : Worlds σ Q C R ε α}
    (hw : F.Runs e w) {a : α} (ha : w.progs[0]? = some (.ret a)) :
    w.threads.length = n + 1 ∧ (∀ t ∈ w.threads, t.prog.finished = true) ∧
      readOut answer after (view w.env.env) = .ok a := by
  have hforked := hw.forked hn hmain hafter hdrift
  have hlength : w.threads.length = w.progs.length := by simp [World.progs]
  have hmem : ∀ t ∈ w.threads, t.prog ∈ w.progs := fun t ht => List.mem_map_of_mem ht
  obtain ⟨p, workers, hprogs⟩ : ∃ p workers, w.progs = p :: workers := by
    generalize w.progs = ps at ha
    cases ps with
    | nil => cases ha
    | cons p workers => exact ⟨_, _, rfl⟩
  rw [hprogs] at ha hforked hlength hmem
  obtain rfl : p = .ret a := by simpa using ha
  obtain ⟨hworkers, hall, hresult⟩ := hforked.ended rfl
  refine ⟨by rw [hlength, List.length_cons, hworkers], fun t ht => ?_, ?_⟩
  · rcases List.mem_cons.mp (hmem t ht) with h | h
    · rw [h]
      rfl
    · exact hall _ h
  · exact (Option.some.inj hresult).symm

end

/-! ### The join is reached -/

section

variable {F : ForkJoin σ Q C R ε α}

/-- Steps of the program. -/
abbrev Steps (F : ForkJoin σ Q C R ε α) : Worlds σ Q C R ε α → Worlds σ Q C R ε α → Prop :=
  Relation.ReflTransGen (F.system.Step anyCall)

theorem exists_serves (htotal : ∀ e c, ∃ r e', F.exec e c r e') (s : Grouped σ)
    {c : GroupCall Q C} (hc : c ≠ .wait) : ∃ r s', GroupServes F.exec s c r s' := by
  cases c with
  | shared c =>
      obtain ⟨r, e, he⟩ := htotal s.env c
      exact ⟨r, _, .shared he⟩
  | go q => exact ⟨_, _, .go⟩
  | add delta =>
      cases h : s.wg.add delta with
      | none => exact ⟨_, _, .addPanics h⟩
      | some wg => exact ⟨_, _, .add h⟩
  | done =>
      cases h : s.wg.done with
      | none => exact ⟨_, _, .donePanics h⟩
      | some wg => exact ⟨_, _, .done h⟩
  | wait => exact absurd rfl hc

/-- A worker that is let run alone ends. The induction is on its program, and every call has
an answer by assumption. -/
theorem worker_ends (htotal : ∀ e c, ∃ r e', F.exec e c r e') (q : Prog C R ε α)
    {w : Worlds σ Q C R ε α} {i : ℕ} (hi : w.progs[i]? = some (q.deferDone F.panic)) :
    ∃ w' p, F.Steps w w' ∧ p.finished = true ∧ w'.progs = w.progs.set i p := by
  have hdone : ∀ {w : Worlds σ Q C R ε α} {k : Bool → Prog (GroupCall Q C) (GroupAnswer R) ε α},
      (∀ r, (k r).finished = true) → w.progs[i]? = some (.call .done k) →
      ∃ w' p, F.Steps w w' ∧ p.finished = true ∧ w'.progs = w.progs.set i p := by
    intro w k hk hi
    obtain ⟨r, s', he⟩ := exists_serves (F := F) htotal w.env (c := .done) (by rintro ⟨⟩)
    obtain ⟨w', hstep, -, hprogs⟩ := System.exists_step (S := F.system) hi he
    refine ⟨w', k r, .single hstep, hk r, ?_⟩
    rw [hprogs]
    exact List.append_nil _
  -- the program may end either way; what is deferred runs in both
  induction q generalizing w with
  | ret a => exact hdone (fun r => by cases r <;> rfl) hi
  | throw x => exact hdone (fun r => by cases r <;> rfl) hi
  | call c k ih =>
      obtain ⟨r, e, he⟩ := htotal w.env.env c
      obtain ⟨w', hstep, -, hprogs⟩ :=
        System.exists_step (S := F.system) (i := i) (c := .shared c) hi (.shared he)
      have hlt : i < w.progs.length := (List.getElem?_eq_some_iff.mp hi).1
      have hi' : w'.progs[i]? = some ((k r).deferDone F.panic) := by
        rw [hprogs, List.getElem?_append_left (by rwa [List.length_set]),
          List.getElem?_set_self hlt]
      obtain ⟨w'', p, hsteps, hp, hprogs'⟩ := ih r hi'
      refine ⟨w'', p, hsteps.head hstep, hp, ?_⟩
      rw [hprogs', hprogs]
      exact (congrArg (List.set · i p) (List.append_nil _)).trans (List.set_set _)

/-- All workers that are at work can be let run to their ends, one after the other. The
induction is on how many are left, since each run that ends takes one away. -/
theorem workers_end (htotal : ∀ e c, ∃ r e', F.exec e c r e')
    {p : Prog (GroupCall Q C) (GroupAnswer R) ε α}
    {workers : List (Prog (GroupCall Q C) (GroupAnswer R) ε α)} {w : Worlds σ Q C R ε α}
    (hw : w.progs = p :: workers)
    (hshape : ∀ p ∈ workers, p.finished = true ∨ ∃ q : Prog C R ε α, p = q.deferDone F.panic) :
    ∃ w' workers', F.Steps w w' ∧ w'.progs = p :: workers' ∧
      ∀ p ∈ workers', p.finished = true := by
  induction hm : workers.countP (fun p => !p.finished) generalizing w workers with
  | zero =>
      refine ⟨w, workers, .refl, hw, fun p' hp' => ?_⟩
      simpa using List.countP_eq_zero.mp hm p' hp'
  | succ m ih =>
      -- one that is at work is let run to its end
      have hpos : 0 < workers.countP (fun p => !p.finished) := by rw [hm]; exact m.succ_pos
      obtain ⟨p', hp', hnot⟩ := List.countP_pos_iff.mp hpos
      obtain ⟨i, hi⟩ := List.getElem?_of_mem hp'
      obtain ⟨hlt, hget⟩ := List.getElem?_eq_some_iff.mp hi
      obtain hfinished | ⟨q, rfl⟩ := hshape p' hp'
      · simp [hfinished] at hnot
      · obtain ⟨w', p'', hsteps, hp'', hprogs⟩ :=
          worker_ends (i := i + 1) htotal q (by rw [hw, List.getElem?_cons_succ, hi])
        rw [hw, List.set_cons_succ] at hprogs
        have hshape' : ∀ p ∈ workers.set i p'', p.finished = true ∨
            ∃ q : Prog C R ε α, p = q.deferDone F.panic := fun p₁ hp₁ => by
          rcases List.mem_or_eq_of_mem_set hp₁ with h | rfl
          · exact hshape p₁ h
          · exact .inl hp''
        have hcount : (workers.set i p'').countP (fun p => !p.finished) = m := by
          rw [List.countP_set hlt, hget]
          simp [hp'', hm]
        obtain ⟨w'', workers', hsteps', hprogs', hall⟩ := ih hprogs hshape' hcount
        exact ⟨w'', workers', hsteps.trans hsteps', hprogs', hall⟩

variable {V : Type} {view : σ → V} {answer : (c : C) → V → R c} {n : ℕ} {after : Prog C R ε α}
  {s : Grouped σ}

/-- When all workers have ended the parent need not wait any more. -/
theorem Forked.counter_of_wait {workers : List (Prog (GroupCall Q C) (GroupAnswer R) ε α)}
    {k : Unit → Prog (GroupCall Q C) (GroupAnswer R) ε α}
    (hs : F.Forked view answer n after s (.call .wait k :: workers))
    (hall : ∀ p ∈ workers, p.finished = true) : s.wg.counter = 0 := by
  generalize hp : (Prog.call GroupCall.wait k : Prog (GroupCall Q C) (GroupAnswer R) ε α) = p at hs
  cases hs with
  | fresh hforks hc =>
      cases hp
      exact hforks.elim
  | forking hforks hc =>
      cases hp
      have hcounter := hc.counter_eq
      have hlength := hc.length_eq
      have hcount := List.countP_eq_length.mpr hall
      have hlaunched := hforks.1
      omega
  | joined hq hc hzero hread => exact hzero

theorem Forked.steps (hn : n < 2 ^ 31) (hafter : after.Obeys (F.IsRead view answer) fun _ => True)
    (hdrift : ∀ e e', F.drift e e' → view e' = view e) {w w' : Worlds σ Q C R ε α}
    (hw : F.Forked view answer n after w.env w.progs) (hsteps : F.Steps w w') :
    F.Forked view answer n after w'.env w'.progs := by
  induction hsteps with
  | refl => exact hw
  | tail _ hstep ih => exact ih.moves hn hafter hdrift hstep.moves

theorem Forked.shape {p : Prog (GroupCall Q C) (GroupAnswer R) ε α}
    {workers : List (Prog (GroupCall Q C) (GroupAnswer R) ε α)}
    (hs : F.Forked view answer n after s (p :: workers)) :
    ∀ p ∈ workers, p.finished = true ∨ ∃ q : Prog C R ε α, p = q.deferDone F.panic := by
  cases hs with
  | fresh hforks hc => exact hc.shape
  | forking hforks hc => exact hc.shape
  | joined hq hc hzero hread => exact hc.shape

/-- **The join is reached**: whatever has happened, the program can go on to the end of its
parent. -/
theorem exists_joined (htotal : ∀ e c, ∃ r e', F.exec e c r e') (hn : n < 2 ^ 31)
    (hafter : after.Obeys (F.IsRead view answer) fun _ => True)
    (hdrift : ∀ e e', F.drift e e' → view e' = view e) {w : Worlds σ Q C R ε α}
    (hw : F.Forked view answer n after w.env w.progs) :
    ∃ w' p workers, F.Steps w w' ∧ w'.progs = p :: workers ∧ p.finished = true := by
  obtain ⟨p, workers, hprogs⟩ : ∃ p workers, w.progs = p :: workers := by
    generalize w.progs = ps at hw
    cases hw <;> exact ⟨_, _, rfl⟩
  induction p generalizing w workers with
  | ret a => exact ⟨w, _, _, .refl, hprogs, rfl⟩
  | throw x => exact ⟨w, _, _, .refl, hprogs, rfl⟩
  | call c k ih =>
      have hgo : ∀ {w workers r s'}, F.Forked view answer n after w.env w.progs →
          w.progs = .call c k :: workers → GroupServes F.exec w.env c r s' →
          ∃ w' p workers, F.Steps w w' ∧ w'.progs = p :: workers ∧ p.finished = true := by
        intro w workers r s' hw hprogs he
        obtain ⟨w', hstep, -, hprogs'⟩ :=
          System.exists_step (S := F.system) (i := 0) (by rw [hprogs]; rfl) he
        rw [hprogs, List.set_cons_zero, List.cons_append] at hprogs'
        obtain ⟨w'', p, workers', hsteps, hp⟩ :=
          ih r (hw.steps hn hafter hdrift (.single hstep)) _ hprogs'
        exact ⟨w'', p, workers', hsteps.head hstep, hp⟩
      -- `Wait` is the one call that may have to wait: for the workers, which can all end first
      by_cases hc : c = .wait
      · subst hc
        rw [hprogs] at hw
        obtain ⟨w', workers', hsteps, hprogs', hall⟩ := workers_end htotal hprogs hw.shape
        rw [← hprogs] at hw
        have hw' := hw.steps hn hafter hdrift hsteps
        have hzero : w'.env.wg.counter = 0 := by
          rw [hprogs'] at hw'
          exact hw'.counter_of_wait hall
        obtain ⟨w'', p, workers'', hsteps', hp⟩ := hgo hw' hprogs' (.wait hzero)
        exact ⟨w'', p, workers'', hsteps.trans hsteps', hp⟩
      · obtain ⟨r, s', he⟩ := exists_serves htotal w.env hc
        exact hgo hw hprogs he

end

end ForkJoin

end Concurrency
