/-
The status that is recorded and the status that is sent.

Both servers put a recorder between a handler and its client: `LatencyCalculator`
(`ch01-reliability`) counts an error or a success by the status the recorder holds, `Logger`
(`url-shortner`) logs it. Both recorders are the same struct, and neither knows that the first
call has fixed what the client gets: a handler that writes a body and then a 500 has sent a
200 and is counted and logged as a 500 (`recorded_after_body`). They are right exactly for
the handlers whose last `WriteHeader`, if any, repeats what their first call sent
(`recorded_as_sent_iff`).

What follows for the two servers is stated of their own programs. `LatencyCalculator` counts
by the last code that the handler wrote (`latencyCalculator_counts`), and `Logger` logs that
code (`Shortener.logger_logs`); in every run of a handler that fails after a part of the
body was written, the one counts an error and the other logs a 500 while the client has its
200.
-/
import EngineeringLab.Reliability.FaultInjection
import EngineeringLab.Shortener.Logging

set_option autoImplicit false

open Concurrency Web

namespace EngineeringLab

open Reliability Shortener

/-! ## The recorders -/

/-- After these calls of a handler both recorders hold the status that the client got. -/
structure RecordedAsSent (calls : List WriterCall) : Prop where
  statusRecorder : ∀ rr : StatusRecorder, rr = Recorder.performAll ⟨.new, 200⟩ calls →
    rr.statusCode = rr.responseWriter.sent
  responseRecorder : ∀ rr : ResponseRecorder, rr = Recorder.performAll ⟨.new, 200⟩ calls →
    rr.statusCode = rr.responseWriter.sent

/-- **The status is recorded as it is sent** exactly when the last `WriteHeader`, if there
is one, repeats what the first call sent. The list may be any that a handler writes before
it returns, and both recorders are meant. -/
theorem recorded_as_sent_iff (calls : List WriterCall) :
    RecordedAsSent calls ↔ LastHeaderRepeats calls := by
  rw [← Recorder.agrees_iff]
  constructor
  · intro h
    exact h.statusRecorder _ rfl
  · intro h
    constructor
    · rintro rr rfl
      exact h
    · rintro rr rfl
      exact h

/-! ## What the servers make of it -/

section

variable {F G : Type} [Zero F] [LT F] [DecidableLT F] {gen : Rand G F}

/-- **A request is counted by the last code** of its handler, here on its own. -/
theorem latencyCalculator_counts {p : HandlerProg ServerCall ServerAnswer Empty}
    {w w' : ResponseWriter} {e e' : State G F}
    (h : (LatencyCalculator (fun rr => rr.serve p) w).Ends (Serves gen) e (.ok w') e') :
    ∃ calls e₁, p.Ends (Writes (Serves gen)) (e, []) (.ok ()) (e₁, calls) ∧
      w' = w.performAll calls ∧ e'.totalRequests = e₁.totalRequests + 1 ∧
      e'.errorCount = e₁.errorCount + if 500 ≤ (lastHeader calls).getD 200 then 1 else 0 := by
  obtain ⟨start, s₁, hstart, h⟩ := Prog.ends_call.mp h
  cases hstart
  have hbind : (Recorder.serve p ⟨w, 200⟩ >>= _).Ends (Serves gen) _ _ _ := h
  rcases Prog.ends_bind.mp hbind with ⟨rr, e₁, hserve, h⟩ | ⟨x, heq, -⟩
  · obtain ⟨calls, hcalls, rfl⟩ := Recorder.ends_serve hserve
    refine ⟨calls, e₁, hcalls, ?_⟩
    obtain ⟨now, s₂, hnow, h⟩ := Prog.ends_call.mp h
    obtain ⟨_, s₃, hrecord, h⟩ := Prog.ends_call.mp h
    cases hnow
    cases hrecord
    have hcode := Recorder.statusCode_performAll ⟨w, 200⟩ calls
    have hwriter := Recorder.responseWriter_performAll ⟨w, 200⟩ calls
    dsimp only at hcode hwriter
    rw [← hcode, ← hwriter]
    -- one counter or the other
    change Prog.Ends _ (if 500 ≤ _ then _ else _) _ _ _ at h
    by_cases hserver : 500 ≤ (Recorder.performAll ⟨w, 200⟩ calls).statusCode
    · rw [if_pos hserver] at h ⊢
      obtain ⟨_, s₄, herror, h⟩ := Prog.ends_call.mp h
      cases herror
      obtain ⟨heq, rfl⟩ := Prog.ends_ret.mp h
      cases heq
      exact ⟨rfl, rfl, rfl⟩
    · rw [if_neg hserver] at h ⊢
      obtain ⟨_, s₄, hsuccess, h⟩ := Prog.ends_call.mp h
      cases hsuccess
      obtain ⟨heq, rfl⟩ := Prog.ends_ret.mp h
      cases heq
      exact ⟨rfl, rfl, rfl⟩
  · cases heq

end

section

variable {C : Type} {R : C → Type} {ε σ : Type} {exec : σ → (c : C) → R c → σ → Prop}

/-- A handler that finds that it has failed when a part of the body is written. -/
def failsLate : HandlerProg C R ε :=
  .call (.writer (.write "partial")) fun _ =>
    .call (.writer (.writeHeader 500 (by decide))) fun _ => .ret ()

theorem writes_failsLate {s s' : σ} {calls : List WriterCall}
    (h : (failsLate : HandlerProg C R ε).Ends (Writes exec) (s, []) (.ok ()) (s', calls)) :
    s' = s ∧ calls = [.write "partial", .writeHeader 500 (by decide)] := by
  obtain ⟨_, s₁, hwrite, h⟩ := Prog.ends_call.mp h
  obtain ⟨_, s₂, hheader, h⟩ := Prog.ends_call.mp h
  cases hwrite
  cases hheader
  obtain ⟨-, heq⟩ := Prog.ends_ret.mp h
  cases heq
  exact ⟨rfl, rfl⟩

end

/-- **A body and then a 500**: the client gets 200, and 500 is recorded. So `Logger` logs a 500
that nobody was sent, and `LatencyCalculator` counts an error for a 200. -/
theorem recorded_after_body :
    ¬ RecordedAsSent [.write "partial", .writeHeader 500 (by decide)] ∧
      (Recorder.performAll ⟨.new, 200⟩
        [.write "partial", .writeHeader 500 (by decide)]).statusCode = 500 ∧
      (Recorder.performAll ⟨.new, 200⟩
        [.write "partial", .writeHeader 500 (by decide)]).responseWriter.sent = 200 ∧
      (∀ (r : MuxRequest) (s s' : LoggerState Unit) (w' : ResponseWriter),
        (Logger (fun _ => (failsLate : HandlerProg Empty (fun _ => Unit) Empty)) .new r).Ends
          (Logs fun _ _ _ _ => True) s (.ok w') s' →
        w'.sent = 200 ∧ ∃ entry, s'.log = s.log ++ [entry] ∧ entry.status = 500) ∧
      ∀ (gen : Rand ℕ ℚ) (e e' : State ℕ ℚ) (w' : ResponseWriter),
        (LatencyCalculator (fun rr => rr.serve failsLate) .new).Ends (Serves gen) e (.ok w') e' →
        w'.sent = 200 ∧ e'.errorCount = e.errorCount + 1 := by
  refine ⟨fun h => ?_, by decide, by decide, ?_, ?_⟩
  · have hsame := h.statusRecorder _ rfl
    revert hsame
    decide
  · intro r s s' w' h
    obtain ⟨calls, duration, hends, rfl, -, hlog⟩ := logger_logs h
    obtain ⟨-, rfl⟩ := writes_failsLate hends
    exact ⟨by decide, _, hlog, rfl⟩
  · intro gen e e' w' h
    obtain ⟨calls, e₁, hends, rfl, -, herrors⟩ := latencyCalculator_counts h
    obtain ⟨rfl, rfl⟩ := writes_failsLate hends
    exact ⟨by decide, herrors⟩

end EngineeringLab
