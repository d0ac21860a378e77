/-
Handlers behind a recorder.

A handler is a program with two kinds of calls: those to its writer, and whatever else it
does. Behind a recorder (`Recorder.serve`) the first are carried out on the recorder and the
others are passed on. A run that returns then leaves the recorder as the list of its writer
calls does (`Recorder.ends_serve`), so what holds of such lists holds of handlers.

The recorder is the struct that both servers of the repository use: it has the writer inside
and a status beside it. Of the methods of `http.ResponseWriter` it overrides `WriteHeader`
alone. What the client gets and what the recorder holds are therefore both functions of the
list of writer calls, and need no more of the handler than that list (`Writes`).

Nothing here depends on what the other calls of the handler are. Their type, their answers
and their effects are parameters, so the same lemmas serve the fault injector of the one
server and the log of the other.
-/
import EngineeringLab.Concurrency.Interpret
import EngineeringLab.Web.ResponseWriter

set_option autoImplicit false

open Concurrency

namespace Web

variable {C : Type} {R : C → Type} {ε σ : Type}

/-- A call to the writer, or to anything else. -/
inductive HandlerCall (C : Type) where
  | writer (c : WriterCall)
  | other (c : C)

abbrev HandlerAnswer (R : C → Type) : HandlerCall C → Type
  | .writer _ => Unit
  | .other c => R c

abbrev HandlerProg (C : Type) (R : C → Type) (ε : Type) : Type :=
  Prog (HandlerCall C) (HandlerAnswer R) ε Unit

/-- `next.ServeHTTP(rr, r)`. -/
def Recorder.serve : HandlerProg C R ε → Recorder → Prog C R ε Recorder
  | .ret _, rr => .ret rr
  | .throw e, _ => .throw e
  | .call (.writer c) k, rr => serve (k ()) (rr.perform c)
  | .call (.other c) k, rr => .call c fun r => serve (k r) rr

/-- The handler on its own, its writer calls written down. -/
inductive Writes (exec : σ → (c : C) → R c → σ → Prop) :
    σ × List WriterCall → (c : HandlerCall C) → HandlerAnswer R c → σ × List WriterCall → Prop
  | writer {s : σ} {made : List WriterCall} (c : WriterCall) :
      Writes exec (s, made) (.writer c) () (s, made ++ [c])
  | other {s s' : σ} {made : List WriterCall} {c : C} {r : R c} (h : exec s c r s') :
      Writes exec (s, made) (.other c) r (s', made)

namespace Recorder

variable {exec : σ → (c : C) → R c → σ → Prop}

theorem performAll_append (rr : Recorder) (calls : List WriterCall) (c : WriterCall) :
    rr.performAll (calls ++ [c]) = (rr.performAll calls).perform c := by
  rw [performAll, List.foldl_append]
  rfl

/-- From any point of a run on, `made` being what the handler has written so far. -/
theorem ends_serve_from {p : HandlerProg C R ε} {rr rr' : Recorder} {made : List WriterCall}
    {s s' : σ} (h : (serve p (rr.performAll made)).Ends exec s (.ok rr') s') :
    ∃ calls, p.Ends (Writes exec) (s, made) (.ok ()) (s', calls) ∧ rr' = rr.performAll calls := by
  induction p generalizing s made with
  | ret a =>
      cases h
      exact ⟨made, .ret _ _, rfl⟩
  | throw e => cases h
  | call c k ih =>
      cases c with
      | writer c =>
          rw [serve, ← performAll_append] at h
          obtain ⟨calls, hcalls, heq⟩ := ih () h
          exact ⟨calls, .call (.writer c) hcalls, heq⟩
      | other c =>
          obtain ⟨r, s₁, hc, hk⟩ := Prog.ends_call.mp h
          obtain ⟨calls, hcalls, heq⟩ := ih r hk
          exact ⟨calls, .call (.other hc) hcalls, heq⟩

/-- **A handler that returns** has left the recorder as its writer calls leave it. -/
theorem ends_serve {p : HandlerProg C R ε} {rr rr' : Recorder} {s s' : σ}
    (h : (serve p rr).Ends exec s (.ok rr') s') :
    ∃ calls, p.Ends (Writes exec) (s, []) (.ok ()) (s', calls) ∧ rr' = rr.performAll calls := by
  have hstart : (serve p (rr.performAll [])).Ends exec s (.ok rr') s' := h
  exact ends_serve_from hstart

end Recorder

end Web
