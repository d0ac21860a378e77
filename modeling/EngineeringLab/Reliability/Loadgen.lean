/-
The load generator (`cmd/loadgen/main.go`).

`main` starts a goroutine for every request, waits for all of them, and prints what the
histogram and the error tracker then say. Every goroutine records its latency and its outcome
before it is done, so the report is about exactly the requests that were asked for, each of them
once (`report_of_measured`), in whatever order the answers come. It is printed if and only if
the two flags are positive or one of them is zero (`reports_iff`): with one negative flag `Add`
panics, and with two it is given a positive number of goroutines and none is started, so that
`main` waits for ever.

`float64` is an exact rational.

The goroutines share a histogram and a tracker, whose methods take locks, so each record is
one step. The printing comes after the wait and reads them without anybody else at work.
Whether the program ends is a question of its own: the workers make no call that waits for
ever, so from every state a run can reach there is a way to the report, and in the two bad
cases there is none, whatever the scheduler does.
-/
import EngineeringLab.Concurrency.Interpret
import EngineeringLab.Concurrency.WaitGroup
import EngineeringLab.Reliability.Health

set_option autoImplicit false

open Concurrency

namespace EngineeringLab.Reliability.Loadgen

/-! ## The program -/

/-- How `http.Get` ends: with an error, or with a response. -/
inductive Got where
  | failed
  | response (statusCode : ℤ)
  deriving DecidableEq, Repr

/-- The calls of the program that others can see or that take time; each metric has a lock of
its own. -/
inductive Call where
  | timeNow
  | get (url : String)
  | record (ms : ℚ)
  | recordError
  | recordSuccess
  | sleep (seconds : ℤ)
  | count
  | errorRate
  | percentile (n : ℚ)
  deriving DecidableEq

abbrev Answer : Call → Type
  | .timeNow => ℤ
  | .get _ => Got
  | .record _ => Unit
  | .recordError => Unit
  | .recordSuccess => Unit
  | .sleep _ => Unit
  | .count => ℕ
  | .errorRate => ℚ
  | .percentile _ => Except PercentileFailure ℚ

/-- A run-time panic, which ends the program. -/
inductive Panic where
  | negativeCounter
  | indexOutOfRange (index : ℤ) (length : ℕ)
  deriving DecidableEq, Repr

/-- `main` gives what it prints; a goroutine gives nothing. -/
abbrev Goroutine (α : Type) : Type := Prog Call Answer Panic α

abbrev MainProg (α : Type) : Type := Prog (GroupCall Unit Call) (GroupAnswer Answer) Panic α

def timeNow : Goroutine ℤ := .call .timeNow .ret
def get (url : String) : Goroutine Got := .call (.get url) .ret
def record (ms : ℚ) : Goroutine Unit := .call (.record ms) .ret
def recordError : Goroutine Unit := .call .recordError .ret
def recordSuccess : Goroutine Unit := .call .recordSuccess .ret
def count : Goroutine ℕ := .call .count .ret
def errorRate : Goroutine ℚ := .call .errorRate .ret
def percentile (n : ℚ) : Goroutine (Except PercentileFailure ℚ) := .call (.percentile n) .ret

/-- The function that `go` runs, but for its `defer wg.Done()`. -/
def goroutine (url : String) : Goroutine (Option (List String)) := do
  let start ← timeNow
  let result ← get url
  let now ← timeNow
  record (((now - start).tdiv 1000000 : ℤ) : ℚ)
  match result with
  | .failed => do
    recordError
    return none
  | .response statusCode => do
    if 500 ≤ statusCode then recordError else recordSuccess
    return none

/-- `p, _ := histogram.Percentile(n)`. -/
def percentileOrZero (n : ℚ) : Goroutine ℚ := do
  match ← percentile n with
  | .ok p => return p
  | .error (.indexOutOfRange index length) => .throw (.indexOutOfRange index length)
  | .error _ => return 0

/-- What is printed. -/
def reportLines (total : ℕ) (errorRate p50 p95 p99 : ℚ) : List String :=
  ["--- Load Test Results ---",
    "Total requests: " ++ toString total,
    "Errors:         " ++ formatFixed 1 (errorRate * 100) ++ "%",
    "p50:            " ++ formatFixed 0 p50 ++ "ms",
    "p95:            " ++ formatFixed 0 p95 ++ "ms",
    "p99:            " ++ formatFixed 0 p99 ++ "ms"]

/-- `main` after `wg.Wait()`. -/
def report : Goroutine (Option (List String)) := do
  let total ← count
  let errorRate ← errorRate
  let p50 ← percentileOrZero 50
  let p95 ← percentileOrZero 95
  let p99 ← percentileOrZero 99
  return some (reportLines total errorRate p50 p95 p99)

def add (delta : ℤ) : MainProg Bool := .call (.add delta) .ret
def go : MainProg Unit := .call (.go ()) .ret
def sleep (seconds : ℤ) : MainProg Unit := .call (.shared (.sleep seconds)) .ret
def wait : MainProg Unit := .call .wait .ret

/-- `for i := 0; i < n; i++ { body }`. -/
def forTimes (n : ℕ) (body : MainProg Unit) : MainProg Unit :=
  match n with
  | 0 => .ret ()
  | n + 1 => body >>= fun _ => forTimes n body

/-- `main` from `wg.Add` on, with its flags; the product of two `int`s wraps around. -/
def main (rps duration : ℤ) : MainProg (Option (List String)) := do
  let ok ← add ((rps * duration).bmod (2 ^ 64))
  if ok then
    forTimes duration.toNat do
      forTimes rps.toNat go
      sleep 1
    wait
    report.inGroup
  else .throw .negativeCounter

/-! ## What the goroutines share -/

/-- The clock, in nanoseconds, and the metrics. -/
structure State where
  now : ℤ
  histogram : Histogram
  errorTracker : ErrorTracker
  deriving DecidableEq, Repr

/-- `NewHistogram` and `NewErrorTracker`. -/
def State.start (now : ℤ) : State := ⟨now, .new, .new⟩

/-- What each call answers and does; the server may answer anything. -/
inductive Serves (e : State) : (c : Call) → Answer c → State → Prop
  | timeNow : Serves e .timeNow e.now e
  | get {url : String} (result : Got) : Serves e (.get url) result e
  | record {ms : ℚ} : Serves e (.record ms) () { e with histogram := e.histogram.record ms }
  | recordError :
      Serves e .recordError () { e with errorTracker := e.errorTracker.recordError }
  | recordSuccess :
      Serves e .recordSuccess () { e with errorTracker := e.errorTracker.recordSuccess }
  | sleep {seconds : ℤ} : Serves e (.sleep seconds) () e
  | count : Serves e .count e.histogram.count e
  | errorRate : Serves e .errorRate e.errorTracker.errorRate e
  | percentile {n : ℚ} : Serves e (.percentile n) (e.histogram.percentile n) e

/-- The program with its flags; time passes. -/
def loadgen (rps duration : ℤ) (url : String) :
    ForkJoin State Unit Call Answer Panic (Option (List String)) where
  main := main rps duration
  work _ := goroutine url
  exec := Serves
  drift e e' := ∃ now, e.now ≤ now ∧ e' = { e with now := now }
  panic := .negativeCounter

/-! ## The shape of `main` -/

section

variable {n launched : ℕ} {after : Goroutine (Option (List String))}
  {rest : Unit → MainProg (Option (List String))}

/-- The inner loop starts `m` goroutines. -/
theorem forks_go (m : ℕ) (hle : launched + m ≤ n)
    (hrest : ForkJoin.Forks n after (rest ()) (some (launched + m))) :
    ForkJoin.Forks n after (forTimes m go >>= rest) (some launched) := by
  induction m generalizing launched with
  | zero => exact hrest
  | succ m ih =>
      refine ⟨by omega, ih (by omega) ?_⟩
      rwa [Nat.add_right_comm]

/-- The outer loop starts `r` of them in each round. -/
theorem forks_rounds (r rounds : ℕ) (hle : launched + rounds * r ≤ n)
    (hrest : ForkJoin.Forks n after (rest ()) (some (launched + rounds * r))) :
    ForkJoin.Forks n after
      (forTimes rounds (forTimes r go >>= fun _ => sleep 1) >>= rest) (some launched) := by
  induction rounds generalizing launched with
  | zero =>
      rw [Nat.zero_mul] at hrest
      exact hrest
  | succ rounds ih =>
      have hround : launched + (rounds + 1) * r = launched + r + rounds * r := by ring
      rw [forTimes, Prog.bind_assoc, Prog.bind_assoc]
      refine forks_go r (by omega) fun _ => ?_
      rw [hround] at hle hrest
      exact ih hle hrest

end

/-- The goroutines that the two loops start. -/
def started (rps duration : ℤ) : ℕ := duration.toNat * rps.toNat

/-- `main` adds what it starts, if that is the product of the flags. -/
theorem forks_main {rps duration : ℤ} (hproduct : rps * duration = started rps duration)
    (hsmall : rps * duration < 2 ^ 31) :
    ForkJoin.Forks (started rps duration) report (main rps duration) none := by
  have hwrap : (rps * duration).bmod (2 ^ 64) = rps * duration :=
    Int.bmod_eq_of_le (by omega) (by omega)
  refine ⟨hwrap.trans hproduct, ?_⟩
  refine forks_rounds rps.toNat duration.toNat (by simp [started]) ?_
  exact ⟨by simp [started], rfl⟩

/-! ## What the report reads -/

/-- What the metrics answer; the other calls are not about them. -/
def answer : (c : Call) → Histogram × ErrorTracker → Answer c
  | .count, v => v.1.count
  | .errorRate, v => v.2.errorRate
  | .percentile n, v => v.1.percentile n
  | .timeNow, _ => 0
  | .get _, _ => .failed
  | .record _, _ => ()
  | .recordError, _ => ()
  | .recordSuccess, _ => ()
  | .sleep _, _ => ()

/-- The metrics. -/
def metrics (e : State) : Histogram × ErrorTracker := (e.histogram, e.errorTracker)

theorem percentileOrZero_obeys {P : Call → Prop} (hP : ∀ n, P (.percentile n)) (n : ℚ) :
    (percentileOrZero n).Obeys P fun _ => True := by
  refine ⟨hP n, fun r => ?_⟩
  cases r with
  | ok p => trivial
  | error e => cases e <;> trivial

theorem report_obeys {P : Call → Prop} (hcount : P .count) (hrate : P .errorRate)
    (hP : ∀ n, P (.percentile n)) : report.Obeys P fun _ => True := by
  refine Prog.Obeys.bind (Q := fun _ => True) ⟨hcount, fun _ => trivial⟩ fun total _ => ?_
  refine Prog.Obeys.bind (Q := fun _ => True) ⟨hrate, fun _ => trivial⟩ fun errorRate _ => ?_
  refine Prog.Obeys.bind (percentileOrZero_obeys hP 50) fun p50 _ => ?_
  refine Prog.Obeys.bind (percentileOrZero_obeys hP 95) fun p95 _ => ?_
  exact Prog.Obeys.bind (percentileOrZero_obeys hP 99) fun p99 _ => trivial

theorem report_reads (rps duration : ℤ) (url : String) :
    report.Obeys ((loadgen rps duration url).IsRead metrics answer) fun _ => True := by
  refine report_obeys ?_ ?_ fun n => ?_
  · rintro e r e' ⟨⟩
    exact ⟨rfl, rfl⟩
  · rintro e r e' ⟨⟩
    exact ⟨rfl, rfl⟩
  · rintro e r e' ⟨⟩
    exact ⟨rfl, rfl⟩

/-- The percentile that is printed. -/
def shownPercentile (histogram : Histogram) (n : ℚ) : ℚ :=
  match histogram.percentile n with
  | .ok p => p
  | .error _ => 0

/-- What the report prints of these metrics. -/
def metricsLines (histogram : Histogram) (errorTracker : ErrorTracker) : List String :=
  reportLines histogram.count errorTracker.errorRate (shownPercentile histogram 50)
    (shownPercentile histogram 95) (shownPercentile histogram 99)

theorem run_percentileOrZero {n : ℚ} (v : Histogram × ErrorTracker) (h0 : 0 ≤ n) (h100 : n ≤ 100) :
    (percentileOrZero n).run (fun c v => (answer c v, v)) v = (.ok (shownPercentile v.1 n), v) := by
  have hin : InRange (n, 0) := ⟨h0, h100⟩
  rw [percentileOrZero, Prog.run_bind, shownPercentile]
  change (match v.1.percentile n with
    | .ok p => (.ret p : Goroutine ℚ)
    | .error (.indexOutOfRange index length) => .throw (.indexOutOfRange index length)
    | .error _ => .ret 0).run _ v = _
  by_cases hempty : v.1.latencyRecords = []
  · rw [percentile_noData hin hempty]
    rfl
  · obtain ⟨p, hp⟩ := percentile_ok hin hempty
    rw [hp]
    rfl

/-- The report is what the metrics are at the join. -/
theorem readOut_report (v : Histogram × ErrorTracker) :
    ForkJoin.readOut answer report v = .ok (some (metricsLines v.1 v.2)) := by
  have h50 := run_percentileOrZero (n := 50) v (by norm_num) (by norm_num)
  have h95 := run_percentileOrZero (n := 95) v (by norm_num) (by norm_num)
  have h99 := run_percentileOrZero (n := 99) v (by norm_num) (by norm_num)
  have hcount : count.run (fun c v => (answer c v, v)) v = (.ok v.1.count, v) := rfl
  have hrate : errorRate.run (fun c v => (answer c v, v)) v = (.ok v.2.errorRate, v) := rfl
  unfold ForkJoin.readOut report
  simp only [Prog.run_bind, hcount, hrate, h50, h95, h99]
  rfl

/-! ## What a goroutine measures -/

/-- A request is a failure without a response, and with a response of a status from 500 on. -/
def Got.outcome : Got → ErrorTracker.Outcome
  | .failed => .error
  | .response statusCode => if 500 ≤ statusCode then .error else .success

/-- The latency of a request, in milliseconds, and how it ended. -/
structure Measurement where
  ms : ℚ
  outcome : ErrorTracker.Outcome
  deriving DecidableEq, Repr

abbrev Made : Type := (c : GroupCall Unit Call) × GroupAnswer Answer c

/-- What a goroutine that has ended has measured: the time between its two looks at the clock,
and the answer it got. -/
def measurement : List Made → Option Measurement
  | [⟨.done, _⟩, _, _, ⟨.shared .timeNow, now⟩, ⟨.shared (.get _), result⟩,
      ⟨.shared .timeNow, start⟩] =>
    some ⟨((now - start).tdiv 1000000 : ℤ), result.outcome⟩
  | _ => none

/-- What a call adds to the histogram. -/
def recorded : Made → List ℚ
  | ⟨.shared (.record ms), _⟩ => [ms]
  | _ => []

/-- What a call tells the error tracker. -/
def tracked : Made → List ErrorTracker.Outcome
  | ⟨.shared .recordError, _⟩ => [.error]
  | ⟨.shared .recordSuccess, _⟩ => [.success]
  | _ => []

/-- The calls of a goroutine that has ended are its measurement, recorded once. -/
def MeasuredOnce (calls : List Made) : Prop :=
  ∃ m, measurement calls = some m ∧ calls.flatMap recorded = [m.ms] ∧
    calls.flatMap tracked = [m.outcome]

abbrev LoadgenWorld : Type := ForkJoin.Worlds State Unit Call Answer Panic (Option (List String))

/-- A goroutine looks at the clock, sends its request, looks again, records the latency and the
outcome, and is done. -/
theorem goroutine_measures {S : System (Grouped State) (Option Unit) (GroupCall Unit Call)
      (GroupAnswer Answer) Panic (Option (List String))}
    {post : Option Unit → Except Panic (Option (List String)) → History (Grouped State)
      (GroupCall Unit Call) (GroupAnswer Answer) → Prop} {q : Option Unit} {url : String}
    {panic : Panic} {s : Grouped State} :
    (Contract.own S post).Along q ((goroutine url).deferDone panic) (.start s)
      fun _ h => MeasuredOnce h.calls := by
  unfold goroutine
  refine Contract.along_call fun start h₁ hcalls₁ => ?_
  refine Contract.along_call fun result h₂ hcalls₂ => ?_
  refine Contract.along_call fun now h₃ hcalls₃ => ?_
  refine Contract.along_call fun _ h₄ hcalls₄ => ?_
  rw [hcalls₃, hcalls₂, hcalls₁] at hcalls₄
  -- one of the two counters, and then `Done`
  have hlast : ∀ (c : Call) (r : Answer c), tracked ⟨.shared c, r⟩ = [result.outcome] →
      recorded ⟨.shared c, r⟩ = [] → ∀ h₅ : History (Grouped State) (GroupCall Unit Call)
        (GroupAnswer Answer), h₅.calls = ⟨.shared c, r⟩ :: h₄.calls →
      (Contract.own S post).Along q
        (.call .done fun ok => if ok then .ret none else .throw panic :
          MainProg (Option (List String))) h₅
        fun _ h => MeasuredOnce h.calls := by
    intro c r htracked hrecorded h₅ hcalls₅
    refine Contract.along_call fun ok h₆ hcalls₆ => ?_
    have hmeasured : MeasuredOnce h₆.calls := by
      rw [hcalls₆, hcalls₅, hcalls₄]
      refine ⟨⟨((now - start).tdiv 1000000 : ℤ), result.outcome⟩, rfl, ?_, ?_⟩
      · simp only [List.flatMap_cons, hrecorded]
        rfl
      · simp only [List.flatMap_cons, htracked]
        rfl
    cases ok with
    | true => exact hmeasured
    | false => exact hmeasured
  cases result with
  | failed => exact Contract.along_call fun r h₅ => hlast .recordError r rfl rfl h₅
  | response statusCode =>
      by_cases hserver : 500 ≤ statusCode
      · simp only [hserver, if_true]
        exact Contract.along_call fun r h₅ =>
          hlast .recordError r (by simp [Got.outcome, hserver, tracked]) rfl h₅
      · simp only [hserver, if_false]
        exact Contract.along_call fun r h₅ =>
          hlast .recordSuccess r (by simp [Got.outcome, hserver, tracked]) rfl h₅

/-! ## The report -/

/-- What the goroutines have measured, in the order in which they were started. -/
def measured (w : LoadgenWorld) : List Measurement :=
  w.threads.filterMap fun t => match t.req with
    | some _ => measurement t.past.calls
    | none => none

/-- The report of these measurements, had they been made one after the other. -/
def measuredLines (measurements : List Measurement) : List String :=
  metricsLines (Histogram.recordAll (measurements.map (·.ms)))
    (ErrorTracker.recordAll (measurements.map (·.outcome)))

theorem forTimes_obeys {P : GroupCall Unit Call → Prop} {body : MainProg Unit}
    (hbody : body.Obeys P fun _ => True) (n : ℕ) : (forTimes n body).Obeys P fun _ => True := by
  induction n with
  | zero => trivial
  | succ n ih => exact Prog.Obeys.bind hbody fun _ _ => ih

/-- A call that is not about the metrics, or only reads them. -/
def Silent (c : GroupCall Unit Call) : Prop :=
  ∀ r, recorded ⟨c, r⟩ = [] ∧ tracked ⟨c, r⟩ = []

/-- `main` records nothing itself. -/
theorem main_silent (rps duration : ℤ) : (main rps duration).Obeys Silent fun _ => True := by
  have hgo : go.Obeys Silent fun _ => True := ⟨fun _ => ⟨rfl, rfl⟩, fun _ => trivial⟩
  have hsleep : (sleep 1).Obeys Silent fun _ => True := ⟨fun _ => ⟨rfl, rfl⟩, fun _ => trivial⟩
  have hround : (forTimes rps.toNat go >>= fun _ => sleep 1).Obeys Silent fun _ => True :=
    Prog.Obeys.bind (forTimes_obeys hgo _) fun _ _ => hsleep
  refine Prog.Obeys.bind (Q := fun _ => True) ⟨fun _ => ⟨rfl, rfl⟩, fun _ => trivial⟩ fun ok _ => ?_
  cases ok with
  | false => trivial
  | true =>
      refine Prog.Obeys.bind (forTimes_obeys hround _) fun _ _ => ?_
      refine ⟨fun _ => ⟨rfl, rfl⟩, fun _ => Prog.Obeys.inGroup ?_⟩
      exact report_obeys (fun _ => ⟨rfl, rfl⟩) (fun _ => ⟨rfl, rfl⟩) fun _ _ => ⟨rfl, rfl⟩

abbrev LoadgenThread : Type :=
  Thread (Grouped State) (Option Unit) (GroupCall Unit Call) (GroupAnswer Answer) Panic
    (Option (List String))

/-- What a thread is that has ended, with its part in the metrics. -/
inductive Recorded (t : LoadgenThread) : Prop
  | main (hreq : t.req = none) (hrecorded : t.past.calls.flatMap recorded = [])
      (htracked : t.past.calls.flatMap tracked = [])
  | goroutine (hreq : t.req = some ()) (h : MeasuredOnce t.past.calls)

/-- What the goroutines record are the measurements, in the order of the goroutines. The
metrics have the same, in the order in which they came in. -/
theorem calls_eq_measured {w : LoadgenWorld} (h : ∀ t ∈ w.threads, Recorded t) :
    w.calls.flatMap recorded = (measured w).map (·.ms) ∧
      w.calls.flatMap tracked = (measured w).map (·.outcome) := by
  unfold World.calls measured
  generalize w.threads = ts at h
  induction ts with
  | nil => exact ⟨rfl, rfl⟩
  | cons t ts ih =>
      obtain ⟨ihrecorded, ihtracked⟩ := ih fun t ht => h t (List.mem_cons_of_mem _ ht)
      rw [List.flatMap_cons, List.flatMap_append, List.flatMap_append, ihrecorded, ihtracked]
      cases h t (by simp) with
      | main hreq hrecorded htracked =>
          rw [hrecorded, htracked, List.filterMap_cons_none (by rw [hreq])]
          exact ⟨rfl, rfl⟩
      | goroutine hreq hmeasured =>
          obtain ⟨m, hm, hrecorded, htracked⟩ := hmeasured
          rw [hrecorded, htracked, List.filterMap_cons_some (b := m) (by rw [hreq]; exact hm)]
          exact ⟨rfl, rfl⟩

section

variable {rps duration : ℤ} {url : String} {now : ℤ} {w : LoadgenWorld}

/-- A goroutine measures once; of `main` nothing is asked. -/
theorem measures_once (q : Option Unit) (s : Grouped State) :
    (Contract.own (loadgen rps duration url).asked
      fun q _ h => q = some () → MeasuredOnce h.calls).Safe q
        ((loadgen rps duration url).asked.body q) (.start s) := by
  cases q with
  | none => exact Contract.along_of_post fun _ _ h => by cases h
  | some q => exact goroutine_measures.mono fun _ _ h _ => h

theorem recorded_of_finished (hw : (loadgen rps duration url).Runs (.start now) w)
    {t : LoadgenThread} (ht : t ∈ w.threads) (hfinished : t.prog.finished = true) :
    Recorded t := by
  cases hreq : t.req with
  | none =>
      have hsilent := System.Reach.obeyed (P := fun q c => q.isNone → Silent c) ?_ hw.reach t ht
      · rw [hreq] at hsilent
        refine .main hreq ?_ ?_
        · exact List.flatMap_eq_nil_iff.mpr fun x hx => (hsilent x hx rfl x.2).1
        · exact List.flatMap_eq_nil_iff.mpr fun x hx => (hsilent x hx rfl x.2).2
      · intro q
        cases q with
        | none =>
            simp only [Option.isNone_none, forall_const]
            exact main_silent rps duration
        | some q => exact Prog.obeys_of_forall (fun c h => by cases h) (fun _ => trivial) _
  | some u =>
      obtain ⟨o, ho⟩ := Prog.outcome_of_finished hfinished
      exact .goroutine hreq (Contract.own_sound measures_once hw.reach ht ho hreq)

/-- What a call does to the metrics. -/
theorem serves_metrics {s s' : Grouped State} {c : GroupCall Unit Call} {r : GroupAnswer Answer c}
    (he : GroupServes Serves s c r s') :
    s'.env.histogram.latencyRecords = s.env.histogram.latencyRecords ++ recorded ⟨c, r⟩ ∧
      s'.env.errorTracker.totalRequests =
        s.env.errorTracker.totalRequests + (tracked ⟨c, r⟩).length ∧
      s'.env.errorTracker.errorCount =
        s.env.errorTracker.errorCount + (tracked ⟨c, r⟩).count .error := by
  cases he with
  | shared he =>
      cases he <;>
        simp [recorded, tracked, Histogram.record, ErrorTracker.recordError,
          ErrorTracker.recordSuccess]
  | go => simp [recorded, tracked]
  | add h => simp [recorded, tracked]
  | addPanics h => simp [recorded, tracked]
  | done h => simp [recorded, tracked]
  | donePanics h => simp [recorded, tracked]
  | wait h => simp [recorded, tracked]

/-- The metrics, when all have ended, are those of the measurements made one after the other, in
some order. -/
theorem metrics_eq_measured (hw : (loadgen rps duration url).Runs (.start now) w)
    (hall : ∀ t ∈ w.threads, t.prog.finished = true) :
    w.env.env.histogram.latencyRecords.Perm ((measured w).map (·.ms)) ∧
      w.env.env.errorTracker = ErrorTracker.recordAll ((measured w).map (·.outcome)) := by
  obtain ⟨hrecorded, htracked⟩ :=
    calls_eq_measured fun t ht => recorded_of_finished hw ht (hall t ht)
  have hperm : List.Perm _ (_ ++ w.calls.flatMap recorded) :=
    System.Reach.collected (μ := fun s => s.env.histogram.latencyRecords)
      (fun _ _ _ _ he => (serves_metrics he).1)
      (by rintro s s' ⟨-, _, -, hs⟩; rw [hs]) hw.reach
  have htotal : _ = _ + w.total fun x => (tracked x).length :=
    System.Reach.total (μ := fun s => s.env.errorTracker.totalRequests)
      (fun _ _ _ _ he => (serves_metrics he).2.1)
      (by rintro s s' ⟨-, _, -, hs⟩; rw [hs]) hw.reach
  have herrors : _ = _ + w.total (List.count .error ∘ tracked) :=
    System.Reach.total (μ := fun s => s.env.errorTracker.errorCount)
      (fun _ _ _ _ he => (serves_metrics he).2.2)
      (by rintro s s' ⟨-, _, -, hs⟩; rw [hs]) hw.reach
  rw [World.total_eq, ← List.length_flatMap, htracked] at htotal
  rw [World.total_eq, ← List.count_flatMap, htracked] at herrors
  rw [hrecorded] at hperm
  refine ⟨hperm, ?_⟩
  have htotal' := htotal.trans (Nat.zero_add _)
  have herrors' := herrors.trans (Nat.zero_add _)
  rw [ErrorTracker.recordAll_eq, ← htotal', ← herrors']

/-- Every thread but `main` has a measurement. -/
theorem measured_length (hw : (loadgen rps duration url).Runs (.start now) w)
    (hall : ∀ t ∈ w.threads, t.prog.finished = true) :
    (measured w).length = w.threads.length - 1 := by
  obtain ⟨t, ts, hthreads, hmain, hgoroutines⟩ := hw.reqs
  have hrecorded : ∀ t ∈ ts, Recorded t := fun t ht =>
    have hmem : t ∈ w.threads := by rw [hthreads]; exact List.mem_cons_of_mem _ ht
    recorded_of_finished hw hmem (hall t hmem)
  rw [measured, hthreads, List.filterMap_cons_none (by rw [hmain]), List.length_cons,
    Nat.add_sub_cancel, List.filterMap_length_eq_length]
  intro t ht
  cases hrecorded t ht with
  | main hreq =>
      obtain ⟨q, hq⟩ := hgoroutines t ht
      rw [hreq] at hq
      cases hq
  | goroutine hreq h =>
      obtain ⟨m, hm, -⟩ := h
      rw [hreq]
      exact Option.isSome_iff_exists.mpr ⟨m, hm⟩

theorem metricsLines_congr {histogram histogram' : Histogram}
    (h : histogram.latencyRecords.Perm histogram'.latencyRecords) (errorTracker : ErrorTracker) :
    metricsLines histogram errorTracker = metricsLines histogram' errorTracker := by
  have hshown : ∀ n, shownPercentile histogram n = shownPercentile histogram' n := by
    intro n
    unfold shownPercentile
    rw [percentile_congr h]
  unfold metricsLines Histogram.count
  rw [h.length_eq, hshown 50, hshown 95, hshown 99]

theorem metrics_of_drift (e e' : State) (h : (loadgen rps duration url).drift e e') :
    metrics e' = metrics e := by
  obtain ⟨_, -, rfl⟩ := h
  rfl

/-! ## When there is a report -/

/-- Both flags are positive, or no request is asked for. -/
def Sensible (rps duration : ℤ) : Prop := 0 < rps ∧ 0 < duration ∨ rps * duration = 0

instance (rps duration : ℤ) : Decidable (Sensible rps duration) :=
  inferInstanceAs (Decidable (_ ∨ _))

/-- `main` starts as many goroutines as it waits for. -/
theorem Sensible.product_eq (h : Sensible rps duration) :
    rps * duration = started rps duration := by
  rcases h with ⟨hrps, hduration⟩ | hzero
  · rw [started, Nat.cast_mul, Int.toNat_of_nonneg hrps.le, Int.toNat_of_nonneg hduration.le,
      mul_comm]
  · rw [hzero, started]
    rcases mul_eq_zero.mp hzero with rfl | rfl
    · simp
    · simp

/-- With a negative flag it starts none, and adds another number than zero. -/
theorem not_sensible (h : ¬ Sensible rps duration) :
    rps * duration < 0 ∨ 0 < rps * duration ∧ duration.toNat = 0 := by
  unfold Sensible at h
  push Not at h
  obtain ⟨hpos, hne⟩ := h
  rcases lt_or_gt_of_ne hne with hneg | hproduct
  · exact .inl hneg
  · refine .inr ⟨hproduct, ?_⟩
    rcases le_or_gt duration 0 with hle | hgt
    · omega
    · have hrps : 0 < rps := (pos_iff_pos_of_mul_pos hproduct).mpr hgt
      exact absurd hgt (not_lt.mpr (hpos hrps))

/-- The states of `main` from which it does not get to its report. -/
inductive Stuck (rps duration : ℤ) (s : Grouped State) : List (MainProg (Option (List String))) →
    Prop
  | fresh (hzero : s.wg.counter = 0) : Stuck rps duration s [main rps duration]
  | panicked : Stuck rps duration s [.throw .negativeCounter]
  | waiting {k : Unit → MainProg (Option (List String))} (hpos : 0 < s.wg.counter) :
      Stuck rps duration s [.call .wait k]

/-- The only step there is: `Add`, with its panic or to no end. -/
theorem Stuck.call (h : ¬ Sensible rps duration) (hsmall : |rps * duration| < 2 ^ 31)
    {s s' : Grouped State} {p : MainProg (Option (List String))} (hs : Stuck rps duration s [p])
    {c : GroupCall Unit Call} {k : GroupAnswer Answer c → MainProg (Option (List String))}
    {r : GroupAnswer Answer c} (hp : p = .call c k) (he : GroupServes Serves s c r s') :
    Stuck rps duration s' [k r] ∧ (loadgen rps duration url).system.spawn c = [] := by
  obtain ⟨hlow, hhigh⟩ := abs_lt.mp hsmall
  have hwrap : (rps * duration).bmod (2 ^ 64) = rps * duration :=
    Int.bmod_eq_of_le (by omega) (by omega)
  cases hs with
  | fresh hzero =>
      cases hp
      rw [hwrap] at he
      cases he with
      | @add _ wg hadd =>
          -- one flag is negative, or both are
          rcases not_sensible h with hneg | ⟨hpos, hrounds⟩
          · rw [WaitGroup.add_eq_none (by omega) (by omega)] at hadd
            cases hadd
          · rw [WaitGroup.add_eq (by omega) (by omega)] at hadd
            cases hadd
            refine ⟨?_, rfl⟩
            rw [hrounds]
            exact .waiting (by rwa [hzero, zero_add])
      | addPanics hadd => exact ⟨.panicked, rfl⟩
  | panicked => cases hp
  | waiting hpos =>
      cases hp
      cases he with
      | wait hzero => omega

theorem Stuck.moves (h : ¬ Sensible rps duration) (hsmall : |rps * duration| < 2 ^ 31)
    {s s' : Grouped State} {ps ps' : List (MainProg (Option (List String)))}
    (hs : Stuck rps duration s ps) (hm : (loadgen rps duration url).system.Moves s ps s' ps') :
    Stuck rps duration s' ps' := by
  cases hm with
  | arrive hq => exact hq.elim
  | drift hd =>
      cases hs with
      | fresh hzero => exact .fresh (by rw [hd.1, hzero])
      | panicked => exact .panicked
      | waiting hpos => exact .waiting (by rwa [hd.1])
  | @call _ i c k r hi he =>
      obtain ⟨p, rfl⟩ : ∃ p, ps = [p] := by
        cases hs <;> exact ⟨_, rfl⟩
      obtain ⟨rfl, hp⟩ : i = 0 ∧ p = .call c k := by
        cases i with
        | zero => exact ⟨rfl, by simpa using hi⟩
        | succ i => simp at hi
      obtain ⟨hs', hspawn⟩ : Stuck rps duration s' [k r] ∧
          (loadgen rps duration url).system.spawn c = [] := hs.call h hsmall hp he
      rw [hspawn]
      exact hs'

theorem stuck_of_runs (h : ¬ Sensible rps duration) (hsmall : |rps * duration| < 2 ^ 31)
    (hw : (loadgen rps duration url).Runs (.start now) w) : Stuck rps duration w.env w.progs := by
  unfold ForkJoin.Runs at hw
  induction hw with
  | refl => exact .fresh rfl
  | tail _ hstep ih => exact ih.moves h hsmall hstep.moves

/-- `main` has printed these lines. -/
def Reported (w : LoadgenWorld) (lines : List String) : Prop :=
  w.ended 0 = some (none, .ok (some lines))

theorem progs_of_reported {lines : List String} (h : Reported w lines) :
    w.progs[0]? = some (.ret (some lines)) := by
  obtain ⟨t, ht, -, hprog⟩ := World.thread_of_ended h
  rw [World.progs, List.getElem?_map, ht]
  exact congrArg some hprog

theorem sensible_of_reported (hsmall : |rps * duration| < 2 ^ 31)
    (hw : (loadgen rps duration url).Runs (.start now) w) {lines : List String}
    (hreported : Reported w lines) : Sensible rps duration := by
  by_contra h
  have hstuck := stuck_of_runs h hsmall hw
  have hprogs := progs_of_reported hreported
  generalize w.progs = ps at hstuck hprogs
  cases hstuck with
  | fresh hzero => cases hprogs
  | panicked => cases hprogs
  | waiting hpos => cases hprogs

theorem serves_total (e : State) (c : Call) : ∃ r e', Serves e c r e' := by
  cases c with
  | get url => exact ⟨_, _, .get .failed⟩
  | timeNow => exact ⟨_, _, .timeNow⟩
  | record ms => exact ⟨_, _, .record⟩
  | recordError => exact ⟨_, _, .recordError⟩
  | recordSuccess => exact ⟨_, _, .recordSuccess⟩
  | sleep seconds => exact ⟨_, _, .sleep⟩
  | count => exact ⟨_, _, .count⟩
  | errorRate => exact ⟨_, _, .errorRate⟩
  | percentile n => exact ⟨_, _, .percentile⟩

/-- From every state that a run has reached the report can still be reached. -/
theorem exists_report (hsensible : Sensible rps duration) (hsmall : |rps * duration| < 2 ^ 31)
    (hw : (loadgen rps duration url).Runs (.start now) w) :
    ∃ w' lines, (loadgen rps duration url).Steps w w' ∧ Reported w' lines := by
  obtain ⟨hlow, hhigh⟩ := abs_lt.mp hsmall
  have hproduct := hsensible.product_eq
  have hn : started rps duration < 2 ^ 31 := by omega
  have hforked := hw.forked hn (forks_main hproduct hhigh) (report_reads rps duration url)
    metrics_of_drift
  obtain ⟨w', p, workers, hsteps, hprogs, hfinished⟩ := ForkJoin.exists_joined serves_total hn
    (report_reads rps duration url) metrics_of_drift hforked
  have hforked' := hforked.steps hn (report_reads rps duration url) metrics_of_drift hsteps
  rw [hprogs] at hforked'
  obtain ⟨-, -, houtcome⟩ := hforked'.ended hfinished
  rw [readOut_report] at houtcome
  -- the first thread is `main`
  obtain ⟨t, ts, hthreads, hreq, -⟩ := ForkJoin.Runs.reqs (hw.trans hsteps)
  obtain rfl : t.prog = p := by
    rw [World.progs, hthreads] at hprogs
    exact List.head_eq_of_cons_eq hprogs
  refine ⟨w', metricsLines w'.env.env.histogram w'.env.env.errorTracker, hsteps, ?_⟩
  unfold Reported World.ended
  rw [hthreads]
  dsimp only [List.getElem?_cons_zero]
  rw [houtcome, hreq]
  rfl

/-- **There is a report if and only if the flags make sense.** Then it can be reached from every
state; otherwise `main` panics or waits for ever. -/
theorem reports_iff (hsmall : |rps * duration| < 2 ^ 31) (url : String) (now : ℤ) :
    (Sensible rps duration → ∀ w, (loadgen rps duration url).Runs (.start now) w →
      ∃ w' lines, (loadgen rps duration url).Steps w w' ∧ Reported w' lines) ∧
    (¬ Sensible rps duration → ∀ w, (loadgen rps duration url).Runs (.start now) w →
      ∀ lines, ¬ Reported w lines) :=
  ⟨fun h _ hw => exists_report h hsmall hw,
    fun h _ hw _ hreported => h (sensible_of_reported hsmall hw hreported)⟩

/-- With the default flags there is a report; with both of them negated there never is. -/
theorem reports_iff_example :
    (∃ w lines, (loadgen 50 10 "http://localhost:8080/process").Runs (.start 0) w ∧
      Reported w lines) ∧
    ∀ w, (loadgen (-50) (-10) "http://localhost:8080/process").Runs (.start 0) w →
      ∀ lines, ¬ Reported w lines := by
  refine ⟨?_, fun w hw => (reports_iff (by norm_num) _ 0).2 (by decide) w hw⟩
  obtain ⟨w, lines, hsteps, hreported⟩ :=
    (reports_iff (by norm_num) "http://localhost:8080/process" 0).1
      (by decide : Sensible 50 10) _ .refl
  exact ⟨w, lines, hsteps, hreported⟩

/-- **The report of the load generator** is about the requests that were asked for, each of them
once: when it is printed, all goroutines have ended, there are as many as the flags say, and what
is printed is the number, the error rate and the percentiles of what they have measured. -/
theorem report_of_measured (hsmall : |rps * duration| < 2 ^ 31)
    (hw : (loadgen rps duration url).Runs (.start now) w) {lines : List String}
    (hreported : Reported w lines) :
    (∀ t ∈ w.threads, t.prog.finished = true) ∧ ((measured w).length : ℤ) = rps * duration ∧
      lines = measuredLines (measured w) := by
  obtain ⟨hlow, hhigh⟩ := abs_lt.mp hsmall
  have hproduct := (sensible_of_reported hsmall hw hreported).product_eq
  obtain ⟨hlength, hall, hread⟩ := ForkJoin.joined (by omega) (forks_main hproduct hhigh)
    (report_reads rps duration url) metrics_of_drift hw (progs_of_reported hreported)
  obtain ⟨hperm, htracker⟩ := metrics_eq_measured hw hall
  refine ⟨hall, ?_, ?_⟩
  · rw [hproduct, measured_length hw hall, hlength, Nat.add_sub_cancel]
  · rw [readOut_report] at hread
    obtain rfl : metricsLines w.env.env.histogram w.env.env.errorTracker = lines :=
      Option.some.inj (Except.ok.inj hread)
    rw [htracker, measuredLines, Histogram.recordAll_eq]
    exact metricsLines_congr hperm _

end

/-- The report of the default flags is about 500 requests. -/
theorem report_of_measured_example :
    ∃ w lines, (loadgen 50 10 "http://localhost:8080/process").Runs (.start 0) w ∧
      Reported w lines ∧ (measured w).length = 500 ∧ lines = measuredLines (measured w) := by
  have hsmall : |(50 : ℤ) * 10| < 2 ^ 31 := by norm_num
  obtain ⟨w, lines, hsteps, hreported⟩ :=
    (reports_iff hsmall "http://localhost:8080/process" 0).1 (by decide) _ .refl
  obtain ⟨-, hlength, hlines⟩ := report_of_measured hsmall hsteps hreported
  exact ⟨w, lines, hsteps, hreported, by exact_mod_cast hlength, hlines⟩

end EngineeringLab.Reliability.Loadgen
