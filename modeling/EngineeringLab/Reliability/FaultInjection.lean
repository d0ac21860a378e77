/-
What the error tracker counts when faults are injected (`fault/injector.go`,
`middleware/latencyCalculator.go`, `metrics/error_tracker.go`, `handler/handler.go`, wired in
`main.go`).

`LatencyCalculator` learns of an outcome only through the status that the inner handler
writes, and its recorder starts at 200. A request that the injector fails writes a 500 and is
counted as an error. One that it hangs writes nothing when its context is cancelled, and is
counted as a success (`hung_counted_as_success`). So the counts are right exactly in the runs
in which nothing hangs (`faults_counted_iff`).

`float64` is any ordered type, as the rates are only compared; the counters are natural
numbers, and `ErrorRate` is exact.

The request's path through the layers is one program: the middleware draws and decides under
a lock, then writes, sleeps or calls the handler; the calculator around it reads the clock,
lets that program run behind its recorder, and reports. Requests interleave at every call.
The generator's draws are taken in the order in which the requests get the lock, which is
not the order in which they arrived.
-/
import EngineeringLab.Concurrency.OwnCalls
import EngineeringLab.Web.ResponseWriter
import Mathlib.Algebra.Order.Field.Rat

set_option autoImplicit false

open Concurrency Web

namespace EngineeringLab.Reliability

/-! ## The injector's decision -/

/-- `fault.FaultConfig`: its generator has state `G`, and its lock is not shown. -/
structure FaultConfig (G F : Type) where
  latencyMs : ℤ
  errorRate : F
  hangRate : F
  rand : G
  deriving DecidableEq, Repr

/-- `rand.Rand`, as far as the injector uses it. -/
structure Rand (G F : Type) where
  float64 : G → F × G
  intN : ℤ → G → ℤ × G

/-- What the injector decides for one request. -/
structure Faults where
  hangFail : Bool
  errorFail : Bool
  sleepDuration : ℤ
  deriving DecidableEq, Repr

/-- What is done under `cfg.mu`. -/
def FaultConfig.draw {F G : Type} [Zero F] [LT F] [DecidableLT F] (gen : Rand G F)
    (cfg : FaultConfig G F) : Faults × FaultConfig G F :=
  let (f, rand) := gen.float64 cfg.rand
  let hangFail := decide (f < cfg.hangRate) && decide (0 < cfg.hangRate)
  let (f, rand) := gen.float64 rand
  let errorFail := decide (f < cfg.errorRate) && decide (0 < cfg.errorRate)
  let (sleepDuration, rand) :=
    if 0 < cfg.latencyMs then gen.intN cfg.latencyMs rand else (0, rand)
  (⟨hangFail, errorFail, sleepDuration⟩, { cfg with rand := rand })

/-- The decisions for the next `n` requests that get to the lock. -/
def FaultConfig.draws {F G : Type} [Zero F] [LT F] [DecidableLT F] (gen : Rand G F) :
    ℕ → FaultConfig G F → List Faults
  | 0, _ => []
  | n + 1, cfg => (cfg.draw gen).1 :: draws gen n (cfg.draw gen).2

/-- The configuration after the next `n` decisions. -/
def FaultConfig.after {F G : Type} [Zero F] [LT F] [DecidableLT F] (gen : Rand G F) :
    ℕ → FaultConfig G F → FaultConfig G F
  | 0, cfg => cfg
  | n + 1, cfg => after gen n (cfg.draw gen).2

/-! ## The handlers -/

/-- The steps of a request that others can see or that wait for something; `draw` is the
section under the injector's lock, and each metric has a lock of its own. -/
inductive ServerCall where
  | timeNow
  | draw
  | contextDone
  | sleep (ms : ℤ)
  | randIntN (n : ℤ)
  | histogramRecord (ms : ℤ)
  | recordError
  | recordSuccess

abbrev ServerAnswer : ServerCall → Type
  | .timeNow => ℤ
  | .draw => Faults
  | .contextDone => Unit
  | .sleep _ => Unit
  | .randIntN _ => ℤ
  | .histogramRecord _ => Unit
  | .recordError => Unit
  | .recordSuccess => Unit

/-- `middleware.statusRecorder`: only `WriteHeader` is its own. -/
abbrev StatusRecorder : Type := Recorder

/-- `http.Error`. -/
def StatusRecorder.error (sr : StatusRecorder) (error : String) (code : ℕ) : StatusRecorder :=
  ((sr.setContentType "text/plain; charset=utf-8").writeHeader code).write (error ++ "\n")

abbrev Server (α : Type) : Type := Prog ServerCall ServerAnswer Empty α

/-- An `http.Handler` inside `LatencyCalculator`: it writes to the recorder. -/
abbrev Handler : Type := StatusRecorder → Server StatusRecorder

def timeNow : Server ℤ := .call .timeNow .ret
def draw : Server Faults := .call .draw .ret
def contextDone : Server Unit := .call .contextDone .ret
def sleep (ms : ℤ) : Server Unit := .call (.sleep ms) .ret
def randIntN (n : ℤ) : Server ℤ := .call (.randIntN n) .ret
def histogramRecord (ms : ℤ) : Server Unit := .call (.histogramRecord ms) .ret
def recordError : Server Unit := .call .recordError .ret
def recordSuccess : Server Unit := .call .recordSuccess .ret

/-- `handler.ProcessHandler`. -/
def ProcessHandler : Handler := fun w => do
  let n ← randIntN 41
  sleep (n + 10)
  return (w.setContentType "application/json").writeHeader 200

/-- `fault.NewInjector`, whose `cfg` all requests share: it is part of the state. -/
def NewInjector (next : Handler) : Handler := fun w => do
  let faults ← draw
  if faults.hangFail then
    -- `<-r.Context().Done()`, and no status is written
    contextDone
    return w
  else if faults.errorFail then
    return w.error "Injected fault" 500
  else
    if 0 < faults.sleepDuration then sleep faults.sleepDuration
    next w

/-- `middleware.LatencyCalculator`. -/
def LatencyCalculator (next : Handler) (w : ResponseWriter) : Server ResponseWriter := do
  let start ← timeNow
  let rr ← next ⟨w, 200⟩
  let now ← timeNow
  histogramRecord ((now - start) / 1000000)
  if 500 ≤ rr.statusCode then recordError else recordSuccess
  return rr.responseWriter

/-! ## The server -/

/-- The injector's configuration, the clock in nanoseconds, and the metrics. -/
structure State (G F : Type) where
  cfg : FaultConfig G F
  now : ℤ
  latencyRecords : List ℤ
  totalRequests : ℕ
  errorCount : ℕ

/-- `ErrorTracker.ErrorRate`. -/
def State.errorRate {F G : Type} (e : State G F) : ℚ :=
  if e.totalRequests = 0 then 0 else e.errorCount / e.totalRequests

/-- `NewHistogram` and `NewErrorTracker`. -/
def State.start {F G : Type} (cfg : FaultConfig G F) (now : ℤ) : State G F := ⟨cfg, now, [], 0, 0⟩

section

variable {F G : Type} [Zero F] [LT F] [DecidableLT F]

/-- What each call answers and does. A context may be cancelled at any time, and the
package's own generator may give anything. -/
inductive Serves (gen : Rand G F) :
    State G F → (c : ServerCall) → ServerAnswer c → State G F → Prop
  | timeNow {e : State G F} : Serves gen e .timeNow e.now e
  | draw {e : State G F} :
      Serves gen e .draw (e.cfg.draw gen).1 { e with cfg := (e.cfg.draw gen).2 }
  | contextDone {e : State G F} : Serves gen e .contextDone () e
  | sleep {e : State G F} {ms : ℤ} : Serves gen e (.sleep ms) () e
  | randIntN {e : State G F} {n : ℤ} (r : ℤ) : Serves gen e (.randIntN n) r e
  | histogramRecord {e : State G F} {ms : ℤ} :
      Serves gen e (.histogramRecord ms) ()
        { e with latencyRecords := e.latencyRecords ++ [ms] }
  | recordError {e : State G F} :
      Serves gen e .recordError ()
        { e with totalRequests := e.totalRequests + 1, errorCount := e.errorCount + 1 }
  | recordSuccess {e : State G F} :
      Serves gen e .recordSuccess () { e with totalRequests := e.totalRequests + 1 }

/-- Requests to `/process`, as `main` wires it; time passes. -/
def processSystem (gen : Rand G F) :
    System (State G F) Unit ServerCall ServerAnswer Empty ResponseWriter where
  body _ := LatencyCalculator (NewInjector ProcessHandler) .new
  admits _ := True
  exec := Serves gen
  drift e e' := ∃ now, e.now ≤ now ∧ e' = { e with now := now }
  spawn _ := []

/-! ## What a request calls -/

/-- The decision that a call is about. -/
def drawn : (c : ServerCall) × ServerAnswer c → Option Faults
  | ⟨.draw, faults⟩ => some faults
  | _ => none

/-- A request that is counted. -/
def counted : (c : ServerCall) × ServerAnswer c → ℕ
  | ⟨.recordError, _⟩ => 1
  | ⟨.recordSuccess, _⟩ => 1
  | _ => 0

/-- A request that is counted as an error. -/
def countedAsError : (c : ServerCall) × ServerAnswer c → ℕ
  | ⟨.recordError, _⟩ => 1
  | _ => 0

/-- The decisions of the injector that a request has met. -/
def decisions (h : History (State G F) (ServerCall) ServerAnswer) : List Faults :=
  h.calls.filterMap drawn

/-- A request that has ended met one decision and was counted once: as an error if it was to
fail and not to hang. -/
def CountedOnce (h : History (State G F) (ServerCall) ServerAnswer) : Prop :=
  ∃ faults, decisions h = [faults] ∧ h.total counted = 1 ∧
    h.total countedAsError = if faults.errorFail && !faults.hangFail then 1 else 0

/-- A request that has met its decision and is not counted yet. -/
structure Pending (faults : Faults) (h : History (State G F) (ServerCall) ServerAnswer) :
    Prop where
  decisions : decisions h = [faults]
  counted : h.total counted = 0
  countedAsError : h.total countedAsError = 0

omit [Zero F] [LT F] [DecidableLT F] in
/-- A call that decides and counts nothing. -/
theorem Pending.call {faults : Faults} {h h' : History (State G F) (ServerCall) ServerAnswer}
    (hp : Pending faults h) {c : ServerCall} {r : ServerAnswer c}
    (hcalls : h'.calls = ⟨c, r⟩ :: h.calls) (hdrawn : drawn ⟨c, r⟩ = none)
    (hcounted : Reliability.counted ⟨c, r⟩ = 0) (herror : Reliability.countedAsError ⟨c, r⟩ = 0) :
    Pending faults h' := by
  refine ⟨?_, ?_, ?_⟩
  · rw [Reliability.decisions, hcalls, List.filterMap_cons_none hdrawn]
    exact hp.decisions
  · rw [History.total_of_calls hcalls, hcounted, hp.counted]
  · rw [History.total_of_calls hcalls, herror, hp.countedAsError]

variable {gen : Rand G F}

/-- What `LatencyCalculator` does after the inner handler: it counts by the status. -/
theorem count_along {faults : Faults} {h : History (State G F) (ServerCall) ServerAnswer}
    (hp : Pending faults h) (start : ℤ) (rr : StatusRecorder)
    (hstatus : 500 ≤ rr.statusCode ↔ (faults.errorFail && !faults.hangFail) = true) :
    (Contract.own (processSystem gen) fun _ _ h => CountedOnce h).Along ()
      (do
        let now ← timeNow
        histogramRecord ((now - start) / 1000000)
        if 500 ≤ rr.statusCode then recordError else recordSuccess
        return rr.responseWriter) h fun _ h => CountedOnce h := by
  refine Contract.along_call fun now h₁ hcalls₁ => ?_
  refine Contract.along_call fun _ h₂ hcalls₂ => ?_
  have hp₂ : Pending faults h₂ := (hp.call hcalls₁ rfl rfl rfl).call hcalls₂ rfl rfl rfl
  -- One counter goes up by one, and which one it is follows the status that was recorded.
  by_cases hserver : 500 ≤ rr.statusCode
  · rw [if_pos hserver]
    refine Contract.along_call fun _ h₃ hcalls₃ => ⟨faults, ?_, ?_, ?_⟩
    · rw [decisions, hcalls₃, List.filterMap_cons_none rfl]
      exact hp₂.decisions
    · rw [History.total_of_calls hcalls₃, hp₂.counted]
      rfl
    · rw [History.total_of_calls hcalls₃, hp₂.countedAsError, if_pos (hstatus.mp hserver)]
      rfl
  · rw [if_neg hserver]
    refine Contract.along_call fun _ h₃ hcalls₃ => ⟨faults, ?_, ?_, ?_⟩
    · rw [decisions, hcalls₃, List.filterMap_cons_none rfl]
      exact hp₂.decisions
    · rw [History.total_of_calls hcalls₃, hp₂.counted]
      rfl
    · rw [History.total_of_calls hcalls₃, hp₂.countedAsError,
        if_neg fun h => hserver (hstatus.mpr h)]
      rfl

/-- A request that is passed on is answered with 200. -/
theorem pass_along {faults : Faults} {h : History (State G F) (ServerCall) ServerAnswer}
    (hp : Pending faults h) (start : ℤ) (w : StatusRecorder)
    (hpass : (faults.errorFail && !faults.hangFail) = false) :
    (Contract.own (processSystem gen) fun _ _ h => CountedOnce h).Along ()
      (do
        let rr ← ProcessHandler w
        let now ← timeNow
        histogramRecord ((now - start) / 1000000)
        if 500 ≤ rr.statusCode then recordError else recordSuccess
        return rr.responseWriter) h fun _ h => CountedOnce h := by
  refine Contract.along_call fun n h₁ hcalls₁ => ?_
  refine Contract.along_call fun _ h₂ hcalls₂ => ?_
  have hp₂ : Pending faults h₂ := (hp.call hcalls₁ rfl rfl rfl).call hcalls₂ rfl rfl rfl
  exact count_along hp₂ start _ (by simp [hpass, Recorder.writeHeader])

/-- The three ways through the handlers: hang, fail, or pass on to `ProcessHandler`. -/
theorem process_safe (w : ResponseWriter) (e : State G F) :
    (Contract.own (processSystem gen) fun _ _ h => CountedOnce h).Safe ()
      (LatencyCalculator (NewInjector ProcessHandler) w) (.start e) := by
  unfold LatencyCalculator NewInjector
  refine Contract.along_call fun start h₁ hcalls₁ => ?_
  refine Contract.along_call fun faults h₂ hcalls₂ => ?_
  -- so far the clock and the decision
  have hp : Pending faults h₂ := by
    refine ⟨?_, ?_, ?_⟩
    · rw [decisions, hcalls₂, hcalls₁]
      rfl
    · rw [History.total_of_calls hcalls₂, History.total_of_calls hcalls₁]
      rfl
    · rw [History.total_of_calls hcalls₂, History.total_of_calls hcalls₁]
      rfl
  obtain ⟨hangFail, errorFail, sleepDuration⟩ := faults
  cases hangFail with
  | true =>
      -- the recorder still has its 200 when the context is done
      refine Contract.along_call fun _ h₃ hcalls₃ => ?_
      exact count_along (hp.call hcalls₃ rfl rfl rfl) start ⟨w, 200⟩ (by simp)
  | false =>
      cases errorFail with
      | true =>
          refine count_along hp start (StatusRecorder.error ⟨w, 200⟩ "Injected fault" 500) ?_
          simp [StatusRecorder.error, Recorder.write, Recorder.writeHeader]
      | false =>
          -- `sleepDuration` is drawn, so both ways out of the `if` are followed
          change (Contract.own (processSystem gen) fun _ _ h => CountedOnce h).Along ()
            (Prog.bind (if 0 < sleepDuration then sleep sleepDuration >>= fun _ =>
              ProcessHandler ⟨w, 200⟩ else ProcessHandler ⟨w, 200⟩) _) h₂ _
          by_cases hsleep : 0 < sleepDuration
          · rw [if_pos hsleep]
            refine Contract.along_call fun _ h₃ hcalls₃ => ?_
            exact pass_along (hp.call hcalls₃ rfl rfl rfl) start ⟨w, 200⟩ rfl
          · rw [if_neg hsleep]
            exact pass_along hp start ⟨w, 200⟩ rfl

/-! ## The counts -/

/-- The requests of a run of `/process`. -/
abbrev Requests (G F : Type) : Type :=
  World (State G F) Unit (ServerCall) ServerAnswer Empty ResponseWriter

/-- Did the injector decide that the request hangs? -/
def hung (t : Thread (State G F) Unit (ServerCall) ServerAnswer Empty ResponseWriter) : Bool :=
  (decisions t.past).any (·.hangFail)

/-- Did it decide that the request hangs or fails? -/
def faulted (t : Thread (State G F) Unit (ServerCall) ServerAnswer Empty ResponseWriter) : Bool :=
  (decisions t.past).any fun faults => faults.hangFail || faults.errorFail

/-- Every request is counted, the injected faults as errors, and `ErrorRate` is their part. -/
structure FaultsCounted (w : Requests G F) : Prop where
  totalRequests : w.env.totalRequests = w.threads.length
  errorCount : w.env.errorCount = w.threads.countP faulted
  errorRate : w.env.errorRate = (w.threads.countP faulted : ℚ) / w.threads.length

omit [Zero F] [LT F] [DecidableLT F] in
/-- Where every request is counted once, the errors are the faults but for what hangs. -/
theorem errors_add_hung {w : Requests G F} (h : ∀ t ∈ w.threads, CountedOnce t.past) :
    w.total counted = w.threads.length ∧
      w.total countedAsError + w.threads.countP hung = w.threads.countP faulted := by
  unfold World.total
  generalize w.threads = l at h ⊢
  induction l with
  | nil => exact ⟨rfl, rfl⟩
  | cons t l ih =>
      obtain ⟨hlength, hfaulted⟩ := ih fun t' ht' => h t' (List.mem_cons_of_mem _ ht')
      obtain ⟨⟨hangFail, errorFail, sleepDuration⟩, hdec, hone, herror⟩ := h t List.mem_cons_self
      have hhung : hung t = hangFail := by simp [hung, hdec]
      have hfault : faulted t = (hangFail || errorFail) := by simp [faulted, hdec]
      simp only [List.map_cons, List.sum_cons, List.length_cons, List.countP_cons, hone, herror,
        hhung, hfault]
      refine ⟨by omega, ?_⟩
      -- a request that hangs is a fault and not an error, whatever else was decided for it
      cases hangFail <;> cases errorFail <;> simp <;> omega

/-- The counters add up what the requests have called: nothing else touches them. -/
theorem totalRequests_eq {cfg : FaultConfig G F} {now : ℤ} {w : Requests G F}
    (hw : (processSystem gen).Reach anyCall (.start cfg now) w) :
    w.env.totalRequests = w.total counted := by
  have hsum : w.env.totalRequests = (State.start cfg now).totalRequests + w.total counted := by
    refine System.Reach.total (μ := fun e => e.totalRequests) ?_ ?_ hw
    · intro e c r e' he
      cases he <;> rfl
    · rintro e e' ⟨_, _, rfl⟩
      rfl
  simpa [State.start] using hsum

theorem errorCount_eq {cfg : FaultConfig G F} {now : ℤ} {w : Requests G F}
    (hw : (processSystem gen).Reach anyCall (.start cfg now) w) :
    w.env.errorCount = w.total countedAsError := by
  have hsum : w.env.errorCount = (State.start cfg now).errorCount + w.total countedAsError := by
    refine System.Reach.total (μ := fun e => e.errorCount) ?_ ?_ hw
    · intro e c r e' he
      cases he <;> rfl
    · rintro e e' ⟨_, _, rfl⟩
      rfl
  simpa [State.start] using hsum

/-- The generator is used under the lock only, so the decisions of a run are its next ones, of
any requests whose calls are carried out as here. -/
theorem decisions_of_logged {Q α : Type} {S : System (State G F) Q ServerCall ServerAnswer Empty α}
    (hexec : S.exec = Serves gen) (hdrift : ∀ e e', S.drift e e' → e'.cfg = e.cfg)
    {e e' : State G F} {log : List ((c : ServerCall) × ServerAnswer c)}
    (hlog : S.Logged e log e') :
    log.filterMap drawn = e.cfg.draws gen (log.filterMap drawn).length ∧
      e'.cfg = e.cfg.after gen (log.filterMap drawn).length := by
  induction hlog with
  | nil => exact ⟨rfl, rfl⟩
  | drift hd _ ih =>
      rw [hdrift _ _ hd] at ih
      exact ih
  | call he _ ih =>
      rw [hexec] at he
      cases he with
      | draw => exact ⟨congrArg (List.cons _) ih.1, ih.2⟩
      | timeNow => exact ih
      | contextDone => exact ih
      | sleep => exact ih
      | randIntN r => exact ih
      | histogramRecord => exact ih
      | recordError => exact ih
      | recordSuccess => exact ih

/-- The decisions that the requests of a run have met are the generator's first, in some
order. -/
theorem decisions_perm {cfg : FaultConfig G F} {now : ℤ} {w : Requests G F}
    (hw : (processSystem gen).Reach anyCall (.start cfg now) w)
    (honce : ∀ t ∈ w.threads, CountedOnce t.past) :
    (w.threads.flatMap fun t => decisions t.past).Perm (cfg.draws gen w.threads.length) := by
  obtain ⟨log, hperm, hlog⟩ := hw.logged
  have hmet := hperm.filterMap drawn
  rw [World.calls, List.filterMap_flatMap] at hmet
  -- one decision a request
  have hlength : (log.filterMap drawn).length = w.threads.length := by
    rw [hmet.length_eq, List.length_flatMap]
    have hone : ∀ t ∈ w.threads, (t.past.calls.filterMap drawn).length = 1 := by
      intro t ht
      obtain ⟨faults, hdec, -⟩ := honce t ht
      rw [← decisions, hdec]
      rfl
    rw [List.map_congr_left hone]
    simp
  have hdrift : ∀ e e', (processSystem gen).drift e e' → e'.cfg = e.cfg := by
    rintro e e' ⟨_, _, rfl⟩
    rfl
  rw [(decisions_of_logged rfl hdrift hlog).1, hlength] at hmet
  exact hmet.symm

/-- **The faults are counted exactly when nothing hangs**: in every run, of requests that
have all ended, the error tracker is right if and only if none of the decisions that the
generator gives for them is to hang. -/
theorem faults_counted_iff {cfg : FaultConfig G F} {now : ℤ} {w : Requests G F}
    (hw : (processSystem gen).Reach anyCall (.start cfg now) w)
    (hended : ∀ t ∈ w.threads, t.prog.finished = true) :
    FaultsCounted w ↔ ∀ faults ∈ cfg.draws gen w.threads.length, faults.hangFail = false := by
  have honce : ∀ t ∈ w.threads, CountedOnce t.past := by
    intro t ht
    obtain ⟨o, ho⟩ := Prog.outcome_of_finished (hended t ht)
    exact Contract.own_sound (fun _ _ => process_safe _ _) hw ht ho
  obtain ⟨hlength, herrors⟩ := errors_add_hung honce
  rw [← totalRequests_eq hw] at hlength
  rw [← errorCount_eq hw] at herrors
  -- that no decision is to hang is that no request hangs
  have hnone : (∀ faults ∈ cfg.draws gen w.threads.length, faults.hangFail = false) ↔
      w.threads.countP hung = 0 := by
    rw [List.countP_eq_zero]
    simp only [← (decisions_perm hw honce).mem_iff, List.mem_flatMap, hung, List.any_eq_true]
    constructor
    · rintro h t ht ⟨faults, hmem, hhang⟩
      rw [h faults ⟨t, ht, hmem⟩] at hhang
      cases hhang
    · rintro h faults ⟨t, ht, hmem⟩
      by_contra hhang
      exact h t ht ⟨faults, hmem, by simpa using hhang⟩
  rw [hnone]
  constructor
  · rintro ⟨-, hcount, -⟩
    omega
  · intro hzero
    have hcount : w.env.errorCount = w.threads.countP faulted := by omega
    refine ⟨hlength, hcount, ?_⟩
    rw [State.errorRate, hcount, hlength]
    by_cases hempty : w.threads.length = 0
    · simp [hempty]
    · rw [if_neg hempty]

/-- Answers for a run: the package's own generator gives 0. -/
def served (gen : Rand G F) (e : State G F) : (c : ServerCall) → ServerAnswer c × State G F
  | .timeNow => (e.now, e)
  | .draw => ((e.cfg.draw gen).1, { e with cfg := (e.cfg.draw gen).2 })
  | .contextDone => ((), e)
  | .sleep _ => ((), e)
  | .randIntN _ => (0, e)
  | .histogramRecord ms => ((), { e with latencyRecords := e.latencyRecords ++ [ms] })
  | .recordError =>
    ((), { e with totalRequests := e.totalRequests + 1, errorCount := e.errorCount + 1 })
  | .recordSuccess => ((), { e with totalRequests := e.totalRequests + 1 })

theorem serves_served (e : State G F) (c : ServerCall) :
    Serves gen e c (served gen e c).1 (served gen e c).2 := by
  cases c <;> constructor

end

/-! ## Two runs -/

/-- A generator that reads its numbers from a list. -/
def listed : Rand (List ℚ) ℚ where
  float64 g := (g.headD 0, g.tail)
  intN _ g := (0, g)

/-- Two requests, call by call in turn. -/
def twoInTurn : List (Move (State (List ℚ) ℚ) Unit) :=
  [.arrive (), .arrive ()] ++ (List.replicate 7 [.call 0, .call 1]).flatten

/-- The world that two requests in turn reach. -/
def afterTwo (cfg : FaultConfig (List ℚ) ℚ) : Requests (List ℚ) ℚ :=
  (processSystem listed).playAll (served listed) ⟨.start cfg 0, []⟩ twoInTurn

theorem reach_afterTwo (cfg : FaultConfig (List ℚ) ℚ) :
    (processSystem listed).Reach anyCall (.start cfg 0) (afterTwo cfg) := by
  refine System.reach_play serves_served ?_ (System.meets_anyCall _ _)
  -- the schedule has no drift, and every request is admitted
  intro m hm
  cases m with
  | arrive q => trivial
  | call i => trivial
  | drift f => simp [twoInTurn] at hm

/-- Half of the requests fail, and none hangs. -/
def halfFail : FaultConfig (List ℚ) ℚ := ⟨0, 1 / 2, 0, [0, 1 / 4, 0, 3 / 4]⟩

/-- Of two requests, one after the other, one fails and none is hung: the error rate is a
half, and that is right. -/
theorem faults_counted_iff_example :
    FaultsCounted (afterTwo halfFail) ∧ (afterTwo halfFail).env.errorCount = 1 :=
  ⟨(faults_counted_iff (reach_afterTwo _) (by decide +kernel)).mpr (by decide +kernel),
    by decide +kernel⟩

/-- Every request hangs. -/
def allHang : FaultConfig (List ℚ) ℚ := ⟨0, 0, 1, [0, 1 / 4, 0, 3 / 4]⟩

/-- **A hung request is counted as a success**: two requests were to hang, both have ended,
and no error is counted. -/
theorem hung_counted_as_success :
    (processSystem listed).Reach anyCall (.start allHang 0) (afterTwo allHang) ∧
      (∀ t ∈ (afterTwo allHang).threads, t.prog.finished = true) ∧
      (afterTwo allHang).threads.countP faulted = 2 ∧
      (afterTwo allHang).env.totalRequests = 2 ∧ (afterTwo allHang).env.errorCount = 0 ∧
      ¬FaultsCounted (afterTwo allHang) := by
  have hfaulted : (afterTwo allHang).threads.countP faulted = 2 := by decide +kernel
  have herrors : (afterTwo allHang).env.errorCount = 0 := by decide +kernel
  refine ⟨reach_afterTwo _, by decide +kernel, hfaulted, by decide +kernel, herrors, fun h => ?_⟩
  have hcount := h.errorCount
  rw [hfaulted, herrors] at hcount
  omega

end EngineeringLab.Reliability
