/-
What a handler emits.

Its writer calls are marks, too: the marks of a handler are what it writes, and the marks of the
other calls, in one list. Behind a recorder only the latter are left, and the recorder is as the
former leave it (`Recorder.emits_serve`).

A program that emits marks was followed call by call in `Concurrency.Emits`; here the calls
are those of a handler, and some of them go to a writer that belongs to the request alone.
No other request sees that writer, so what has been written can be read off the list of the
handler's own calls, at any moment.

A middleware that puts a recorder in the writer's place turns the handler into a program
that has no writer calls any more. Its marks are the others, unchanged and in the same
order, and when it ends the recorder holds what the writer calls of the list have made of
it. That is all that the middleware's own steps afterwards can depend on.
-/
import EngineeringLab.Concurrency.Emits
import EngineeringLab.Web.Handler

set_option autoImplicit false

open Concurrency

namespace Web

variable {C : Type} {R : C → Type} {ε μ : Type}

/-- The marks of a handler. -/
def handlerMark (mark : Prog.Made C R → List μ) :
    Prog.Made (HandlerCall C) (HandlerAnswer R) → List (WriterCall ⊕ μ)
  | ⟨.writer c, _⟩ => [.inl c]
  | ⟨.other c, r⟩ => (mark ⟨c, r⟩).map .inr

/-- What is written. -/
def written (l : List (WriterCall ⊕ μ)) : List WriterCall := l.filterMap Sum.getLeft?

/-- The other marks. -/
def unwritten (l : List (WriterCall ⊕ μ)) : List μ := l.filterMap Sum.getRight?

@[simp] theorem written_nil : written ([] : List (WriterCall ⊕ μ)) = [] := rfl

@[simp] theorem unwritten_nil : unwritten ([] : List (WriterCall ⊕ μ)) = [] := rfl

@[simp] theorem written_append (l l' : List (WriterCall ⊕ μ)) :
    written (l ++ l') = written l ++ written l' := List.filterMap_append

@[simp] theorem unwritten_append (l l' : List (WriterCall ⊕ μ)) :
    unwritten (l ++ l') = unwritten l ++ unwritten l' := List.filterMap_append

@[simp] theorem written_inl (c : WriterCall) (l : List (WriterCall ⊕ μ)) :
    written (.inl c :: l) = c :: written l := rfl

@[simp] theorem unwritten_inl (c : WriterCall) (l : List (WriterCall ⊕ μ)) :
    unwritten (.inl c :: l) = unwritten l := rfl

@[simp] theorem written_inr (m : μ) (l : List (WriterCall ⊕ μ)) :
    written (.inr m :: l) = written l := rfl

@[simp] theorem unwritten_inr (m : μ) (l : List (WriterCall ⊕ μ)) :
    unwritten (.inr m :: l) = m :: unwritten l := rfl

@[simp] theorem written_map_inr (l : List μ) :
    written (l.map (.inr : μ → WriterCall ⊕ μ)) = [] := by
  rw [written, List.filterMap_map, List.filterMap_eq_nil_iff]
  exact fun _ _ => rfl

@[simp] theorem unwritten_map_inr (l : List μ) :
    unwritten (l.map (.inr : μ → WriterCall ⊕ μ)) = l := by
  rw [unwritten, List.filterMap_map]
  exact List.filterMap_some

/-- **Behind a recorder**, after the marks `l₀`: the recorder keeps the marks of what is
written to it, and the other calls leave theirs. -/
theorem Recorder.emits_serve {mark : Prog.Made C R → List μ} {during : List μ → Prop}
    {after : Except ε Unit → List (WriterCall ⊕ μ) → Prop} {l₀ : List μ} (rr : Recorder)
    {p : HandlerProg C R ε} {l : List (WriterCall ⊕ μ)}
    (h : p.Emits (handlerMark mark) (fun l => during (l₀ ++ unwritten l)) l after) :
    (serve p (rr.performAll (written l))).Emits mark during (l₀ ++ unwritten l) fun o l' =>
      ∃ l₂, l' = l₀ ++ unwritten l₂ ∧ match o with
        | .ok rr' => rr' = rr.performAll (written l₂) ∧ after (.ok ()) l₂
        | .error e => after (.error e) l₂ := by
  induction p generalizing l with
  | ret a => exact ⟨l, rfl, rfl, h⟩
  | throw e => exact ⟨l, rfl, h⟩
  | call c k ih =>
      cases c with
      | writer c =>
          have hrest := ih () (h.2 ())
          rw [handlerMark, written_append, unwritten_append, written_inl, unwritten_inl,
            written_nil, unwritten_nil, List.append_nil, performAll_append] at hrest
          exact hrest
      | other c =>
          refine ⟨h.1, fun r => ?_⟩
          have hrest := ih r (h.2 r)
          rw [handlerMark, written_append, unwritten_append, written_map_inr, unwritten_map_inr,
            List.append_nil, ← List.append_assoc] at hrest
          exact hrest

end Web
