/-
What a handler writes and what its client gets, as in `net/http`.

The first `WriteHeader` fixes the status, a `Write` before it sends 200, and a handler that
has written nothing when it returns has sent 200. A recorder in front of a writer notes the
code of every `WriteHeader` and passes everything on. So it holds the last code where the
client got the first (`Recorder.statusCode_performAll`, `ResponseWriter.status_performAll`),
and the two are the same exactly when the last `WriteHeader` repeats what the first call sent
(`Recorder.agrees_iff`).

Only final status codes are written; informational ones do not fix the status.

The state of a writer is what a client could tell: whether the status is fixed, which
status, and what has been written since. Every theorem about it is a fold over the list of
calls, and says what the list leaves: `status_performAll` by the first call,
`statusCode_performAll` by the last `WriteHeader`. The condition under which the two agree
speaks of the list alone and is decidable.
-/
import Mathlib.Data.Nat.Notation

set_option autoImplicit false

namespace Web

/-! ## The writer -/

/-- What a client has been sent. -/
structure ResponseWriter where
  status : Option ℕ
  contentType : Option String
  body : String
  deriving DecidableEq, Repr

namespace ResponseWriter

/-- The writer a handler is given. -/
def new : ResponseWriter := ⟨none, none, ""⟩

def setContentType (w : ResponseWriter) (value : String) : ResponseWriter :=
  { w with contentType := some value }

/-- The first status stands. -/
def writeHeader (w : ResponseWriter) (code : ℕ) : ResponseWriter :=
  if w.status = none then { w with status := some code } else w

/-- `Write` sends 200 where no status was sent. -/
def write (w : ResponseWriter) (text : String) : ResponseWriter :=
  { w.writeHeader 200 with body := w.body ++ text }

/-- The status of the response once the handler has returned. -/
def sent (w : ResponseWriter) : ℕ := w.status.getD 200

end ResponseWriter

/-! ## The calls of a handler -/

/-- A call that can fix the status. -/
inductive WriterCall where
  | writeHeader (code : ℕ) (final : 200 ≤ code ∧ code ≤ 599)
  | write (text : String)
  deriving DecidableEq

namespace WriterCall

/-- The code a call gives. -/
def explicit : WriterCall → Option ℕ
  | writeHeader code _ => some code
  | write _ => none

/-- The status a call sends if it is the first one. -/
def sends : WriterCall → ℕ
  | writeHeader code _ => code
  | write _ => 200

theorem sends_of_explicit {c : WriterCall} (h : c.explicit = none) : c.sends = 200 := by
  cases c with
  | writeHeader code final => cases h
  | write text => rfl

end WriterCall

/-- The code of the last `WriteHeader`. -/
def lastHeader (calls : List WriterCall) : Option ℕ := (calls.filterMap (·.explicit)).getLast?

theorem lastHeader_writeHeader {code : ℕ} (final : 200 ≤ code ∧ code ≤ 599)
    (calls : List WriterCall) :
    lastHeader (.writeHeader code final :: calls) = some ((lastHeader calls).getD code) := by
  have hcons : (WriterCall.writeHeader code final :: calls).filterMap (·.explicit) =
      code :: calls.filterMap (·.explicit) := List.filterMap_cons_some rfl
  rw [lastHeader, hcons, List.getLast?_cons]
  rfl

theorem lastHeader_write (text : String) (calls : List WriterCall) :
    lastHeader (.write text :: calls) = lastHeader calls := by
  rw [lastHeader, List.filterMap_cons_none rfl]
  rfl

/-- The last `WriteHeader`, if there is one, repeats what the first call sent. -/
def LastHeaderRepeats (calls : List WriterCall) : Prop :=
  ∀ code ∈ lastHeader calls, ∀ first ∈ calls.head?, first.sends = code

instance (calls : List WriterCall) : Decidable (LastHeaderRepeats calls) :=
  inferInstanceAs (Decidable (∀ code ∈ lastHeader calls, ∀ first ∈ calls.head?, _))

namespace ResponseWriter

def perform (w : ResponseWriter) : WriterCall → ResponseWriter
  | .writeHeader code _ => w.writeHeader code
  | .write text => w.write text

def performAll (w : ResponseWriter) (calls : List WriterCall) : ResponseWriter :=
  calls.foldl perform w

theorem status_writeHeader (w : ResponseWriter) (code : ℕ) :
    (w.writeHeader code).status = some (w.status.getD code) := by
  unfold writeHeader
  cases h : w.status with
  | none => simp
  | some old => simp [h]

theorem status_perform (w : ResponseWriter) (c : WriterCall) :
    (w.perform c).status = some (w.status.getD c.sends) := by
  cases c with
  | writeHeader code final => exact status_writeHeader w code
  | write text => exact status_writeHeader w 200

/-- **The client gets what the first call sends**, if nothing was sent before. -/
theorem status_performAll (w : ResponseWriter) (calls : List WriterCall) :
    (w.performAll calls).status = w.status.or (calls.head?.map (·.sends)) := by
  induction calls generalizing w with
  | nil => simp [performAll]
  | cons c calls ih =>
      have hrest := ih (w.perform c)
      rw [status_perform] at hrest
      rw [performAll, List.foldl_cons, ← performAll, hrest]
      cases w.status <;> simp

end ResponseWriter

/-! ## A recorder in front of the writer -/

/-- A struct that embeds the writer and overrides `WriteHeader` only. -/
structure Recorder where
  responseWriter : ResponseWriter
  statusCode : ℕ
  deriving DecidableEq, Repr

namespace Recorder

def writeHeader (rr : Recorder) (code : ℕ) : Recorder := ⟨rr.responseWriter.writeHeader code, code⟩

def setContentType (rr : Recorder) (value : String) : Recorder :=
  { rr with responseWriter := rr.responseWriter.setContentType value }

def write (rr : Recorder) (text : String) : Recorder :=
  { rr with responseWriter := rr.responseWriter.write text }

def perform (rr : Recorder) : WriterCall → Recorder
  | .writeHeader code _ => rr.writeHeader code
  | .write text => rr.write text

def performAll (rr : Recorder) (calls : List WriterCall) : Recorder := calls.foldl perform rr

/-- The writer behind the recorder gets every call. -/
theorem responseWriter_performAll (rr : Recorder) (calls : List WriterCall) :
    (rr.performAll calls).responseWriter = rr.responseWriter.performAll calls := by
  induction calls generalizing rr with
  | nil => rfl
  | cons c calls ih =>
      rw [performAll, List.foldl_cons, ← performAll, ih]
      cases c <;> rfl

/-- **The recorder holds the last code.** -/
theorem statusCode_performAll (rr : Recorder) (calls : List WriterCall) :
    (rr.performAll calls).statusCode = (lastHeader calls).getD rr.statusCode := by
  induction calls generalizing rr with
  | nil => rfl
  | cons c calls ih =>
      rw [performAll, List.foldl_cons, ← performAll, ih]
      cases c with
      | writeHeader code final =>
          rw [lastHeader_writeHeader]
          rfl
      | write text =>
          rw [lastHeader_write]
          rfl

/-- Without a `WriteHeader` the first call sends 200. -/
theorem head_sends {calls : List WriterCall} (h : lastHeader calls = none) :
    (calls.head?.map (·.sends)).getD 200 = 200 := by
  cases calls with
  | nil => rfl
  | cons c calls =>
      have hnone : (c :: calls).filterMap (·.explicit) = [] := List.getLast?_eq_none_iff.mp h
      have hc : c.explicit = none := List.filterMap_eq_nil_iff.mp hnone c List.mem_cons_self
      exact WriterCall.sends_of_explicit hc

/-- **When the recorder has the client's status**, for one that starts at 200. -/
theorem agrees_iff (calls : List WriterCall) :
    (performAll ⟨.new, 200⟩ calls).statusCode =
        (performAll ⟨.new, 200⟩ calls).responseWriter.sent ↔ LastHeaderRepeats calls := by
  rw [responseWriter_performAll, statusCode_performAll, ResponseWriter.sent,
    ResponseWriter.status_performAll]
  unfold LastHeaderRepeats
  cases hlast : lastHeader calls with
  | none =>
      have hsends := head_sends hlast
      simp [ResponseWriter.new, hsends]
  | some code =>
      cases calls with
      | nil => cases hlast
      | cons c calls => simp [ResponseWriter.new, eq_comm]

end Recorder

end Web
