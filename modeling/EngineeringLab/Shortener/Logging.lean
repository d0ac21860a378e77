/-
The request log: `Logger` (`middleware/logging.go`).

`Logger` counts the request, reads the clock, and puts a `responseRecorder` in front of the
writer before it lets the handler run. When the handler has returned, it reads the clock again
and writes one line with the method, the path, the time that has passed and the status that
the recorder holds. Only `WriteHeader` is the recorder's own; everything else goes to the writer
as it is, so that the handler and the client see no difference.

The status that is logged is the code of the last `WriteHeader`, or 200 if there was none
(`logger_logs`). It need not be the one that the client got: what the first call of a handler
sends is final, and the recorder does not know that. The two are compared in
`EngineeringLab.StatusRecorders`, together with the recorder of the other server.

The handler is any program whose calls are calls to the writer or others; `Logger` is then a
program whose calls are its own three and those others.
-/
import EngineeringLab.Web.Handler
import EngineeringLab.Web.ServeMux
import Mathlib.Data.Int.Notation

set_option autoImplicit false

open Concurrency Web

namespace EngineeringLab.Shortener

variable {C : Type} {R : C → Type} {ε σ : Type}

/-- `middleware.responseRecorder`: only `WriteHeader` is its own. -/
abbrev ResponseRecorder : Type := Recorder

/-- The arguments of `slog.Info`. -/
structure RequestEntry where
  message : String
  method : String
  path : String
  status : ℕ
  duration : ℤ
  deriving DecidableEq, Repr

/-- The calls of `Logger`, and those of the handler behind it. -/
inductive LoggerCall (C : Type) where
  | incTotalRequests
  | timeNow
  | slogInfo (entry : RequestEntry)
  | downstream (c : C)

abbrev LoggerAnswer (R : C → Type) : LoggerCall C → Type
  | .incTotalRequests => Unit
  | .timeNow => ℤ
  | .slogInfo _ => Unit
  | .downstream c => R c

/-- What runs behind `Logger`. -/
def onDownstream {α : Type} (p : Prog C R ε α) : Prog (LoggerCall C) (LoggerAnswer R) ε α :=
  p.interpret fun c => .call (.downstream c) .ret

/-- `middleware.Logger`. -/
def Logger (next : MuxRequest → HandlerProg C R ε) (w : ResponseWriter) (r : MuxRequest) :
    Prog (LoggerCall C) (LoggerAnswer R) ε ResponseWriter := do
  let rr : ResponseRecorder := ⟨w, 200⟩
  .call .incTotalRequests .ret
  let start : ℤ ← .call .timeNow .ret
  let rr ← onDownstream (Recorder.serve (next r) rr)
  let now : ℤ ← .call .timeNow .ret
  .call (.slogInfo ⟨"request_completed", r.method, r.path, rr.statusCode, now - start⟩) .ret
  return rr.responseWriter

/-- What the handler works on, the request counter and the log. -/
structure LoggerState (σ : Type) where
  downstream : σ
  totalRequests : ℕ
  log : List RequestEntry

/-- The clock may say anything. -/
inductive Logs (exec : σ → (c : C) → R c → σ → Prop) :
    LoggerState σ → (c : LoggerCall C) → LoggerAnswer R c → LoggerState σ → Prop
  | incTotalRequests {s : LoggerState σ} :
      Logs exec s .incTotalRequests () { s with totalRequests := s.totalRequests + 1 }
  | timeNow {s : LoggerState σ} (now : ℤ) : Logs exec s .timeNow now s
  | slogInfo {s : LoggerState σ} {entry : RequestEntry} :
      Logs exec s (.slogInfo entry) () { s with log := s.log ++ [entry] }
  | downstream {s : LoggerState σ} {s' : σ} {c : C} {r : R c} (h : exec s.downstream c r s') :
      Logs exec s (.downstream c) r { s with downstream := s' }

variable {exec : σ → (c : C) → R c → σ → Prop}

/-- The handler neither logs nor counts: its calls are those behind `Logger`, and leave both
alone. -/
theorem ends_downstream {α : Type} {p : Prog C R ε α} {o : Except ε α} {s s' : LoggerState σ}
    (h : (onDownstream p).Ends (Logs exec) s o s') :
    p.Ends exec s.downstream o s'.downstream ∧ s'.totalRequests = s.totalRequests ∧
      s'.log = s.log := by
  induction p generalizing s with
  | ret a =>
      obtain ⟨rfl, rfl⟩ := Prog.ends_ret.mp h
      exact ⟨.ret _ _, rfl, rfl⟩
  | throw e =>
      obtain ⟨rfl, rfl⟩ := Prog.ends_throw.mp h
      exact ⟨.throw _ _, rfl, rfl⟩
  | call c k ih =>
      obtain ⟨r, s₁, hc, hk⟩ := Prog.ends_call.mp h
      cases hc with
      | downstream hexec =>
          obtain ⟨hends, htotal, hlog⟩ := ih r hk
          exact ⟨.call hexec hends, htotal, hlog⟩

/-- **What is logged**: one entry a request, with the code of the last `WriteHeader`. -/
theorem logger_logs {next : MuxRequest → HandlerProg C R ε} {w w' : ResponseWriter}
    {r : MuxRequest} {s s' : LoggerState σ} (h : (Logger next w r).Ends (Logs exec) s (.ok w') s') :
    ∃ calls duration,
      (next r).Ends (Writes exec) (s.downstream, []) (.ok ()) (s'.downstream, calls) ∧
      w' = w.performAll calls ∧ s'.totalRequests = s.totalRequests + 1 ∧
      s'.log = s.log ++ [⟨"request_completed", r.method, r.path, (lastHeader calls).getD 200,
        duration⟩] := by
  obtain ⟨_, s₁, hinc, h⟩ := Prog.ends_call.mp h
  obtain ⟨start, s₂, hstart, h⟩ := Prog.ends_call.mp h
  cases hinc
  cases hstart
  have hbind : (onDownstream (Recorder.serve (next r) ⟨w, 200⟩) >>= _).Ends (Logs exec) _ _ _ := h
  rcases Prog.ends_bind.mp hbind with ⟨rr, s₃, hserve, h⟩ | ⟨e, heq, -⟩
  · obtain ⟨now, s₄, hnow, h⟩ := Prog.ends_call.mp h
    obtain ⟨_, s₅, hslog, h⟩ := Prog.ends_call.mp h
    cases hnow
    cases hslog
    obtain ⟨heq, rfl⟩ := Prog.ends_ret.mp h
    cases heq
    obtain ⟨hends, htotal, hlog⟩ := ends_downstream hserve
    obtain ⟨calls, hcalls, rfl⟩ := Recorder.ends_serve hends
    refine ⟨calls, now - start, hcalls, Recorder.responseWriter_performAll _ _, htotal, ?_⟩
    rw [hlog, Recorder.statusCode_performAll]
  · cases heq

end EngineeringLab.Shortener
