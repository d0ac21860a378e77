/-
Go channels.

A channel is a bounded queue that can be closed. A `select` with a `default` never blocks:
it hands the value to a receiver that waits, or puts it into the buffer, or gives it up
(`Chan.trySend`); on a closed channel a send panics. A receive takes the oldest value, and
on a closed channel it ends when the buffer is empty (`Chan.recv`).

What went in is what came out and what is still inside, in this order (`Chan.Flows`). The
second half of the file says what each operation does to that: this is what a proof about
losing or duplicating values needs of the queue.

The buffer never exceeds its capacity: the bound is a field of the channel, so no invariant
of a program has to carry it. Whether a receiver waits is not part of the channel here,
since the parties that could wait are modelled beside it; a send is told (`trySend`). A
channel without a buffer is the case of capacity zero, in which a value is handed over or
given up.
-/
import Mathlib.Data.List.Basic

set_option autoImplicit false

namespace Concurrency

/-- A channel with room for `cap` values. -/
structure Chan (α : Type) where
  cap : ℕ
  buf : List α
  closed : Bool
  bounded : buf.length ≤ cap

namespace Chan

variable {α : Type}

/-- `make(chan T, cap)`. -/
def make (cap : ℕ) : Chan α := ⟨cap, [], false, Nat.zero_le cap⟩

/-- How a send that does not block ends. -/
inductive Sent (α : Type) where
  | panicked
  | handed
  | queued (ch : Chan α)
  | dropped

/-- `select { case ch <- a: default: }`; `receiver` says whether somebody waits in a receive. -/
def trySend (ch : Chan α) (receiver : Bool) (a : α) : Sent α :=
  if ch.closed then .panicked
  else if receiver then .handed
  else if h : ch.buf.length < ch.cap then
    .queued { ch with buf := ch.buf ++ [a], bounded := by rw [List.length_append]; exact h }
  else .dropped

/-- What a receive finds. -/
inductive Received (α : Type) where
  | item (a : α) (ch : Chan α)
  | closed
  | blocked

/-- `<-ch`. -/
def recv (ch : Chan α) : Received α :=
  match h : ch.buf with
  | a :: rest =>
    .item a { ch with buf := rest, bounded := by have := ch.bounded; simp [h] at this; omega }
  | [] => if ch.closed then .closed else .blocked

/-- `close(ch)`, which panics on a closed channel. -/
def close (ch : Chan α) : Option (Chan α) :=
  if ch.closed then none else some { ch with closed := true }

/-! ## What each operation does -/

section

variable {ch ch' : Chan α} {receiver : Bool} {a : α}

theorem closed_of_panicked (h : ch.trySend receiver a = .panicked) : ch.closed = true := by
  unfold trySend at h
  by_cases hclosed : ch.closed = true
  · exact hclosed
  · rw [if_neg hclosed] at h
    split at h
    · cases h
    · split at h <;> cases h

theorem receiver_of_handed (h : ch.trySend receiver a = .handed) : receiver = true := by
  unfold trySend at h
  split at h
  · cases h
  · by_cases hreceiver : receiver = true
    · exact hreceiver
    · rw [if_neg hreceiver] at h
      split at h <;> cases h

/-- A value is given up only where the buffer is full. -/
theorem full_of_dropped (h : ch.trySend receiver a = .dropped) : ch.buf.length = ch.cap := by
  unfold trySend at h
  split at h
  · cases h
  · split at h
    · cases h
    · split at h
      · cases h
      · have := ch.bounded
        omega

/-- A value goes to the end of the queue. -/
theorem of_queued (h : ch.trySend receiver a = .queued ch') :
    receiver = false ∧ ch'.buf = ch.buf ++ [a] ∧ ch'.cap = ch.cap ∧ ch'.closed = ch.closed := by
  unfold trySend at h
  split at h
  · cases h
  · split at h
    · cases h
    · rename_i hreceiver
      split at h
      · cases h
        exact ⟨by simpa using hreceiver, rfl, rfl, rfl⟩
      · cases h

/-- A receive takes the oldest value. -/
theorem of_item (h : ch.recv = .item a ch') :
    ch.buf = a :: ch'.buf ∧ ch'.cap = ch.cap ∧ ch'.closed = ch.closed := by
  unfold recv at h
  split at h
  · rename_i hbuf
    cases h
    exact ⟨hbuf, rfl, rfl⟩
  · split at h <;> cases h

theorem of_recv_closed (h : ch.recv = .closed) : ch.buf = [] ∧ ch.closed = true := by
  unfold recv at h
  split at h
  · cases h
  · rename_i hbuf
    split at h
    · rename_i hclosed
      exact ⟨hbuf, hclosed⟩
    · cases h

/-- A receiver waits only at an empty queue. -/
theorem empty_of_blocked (h : ch.recv = .blocked) : ch.buf = [] := by
  unfold recv at h
  split at h
  · cases h
  · rename_i hbuf
    exact hbuf

theorem of_close (h : ch.close = some ch') :
    ch'.buf = ch.buf ∧ ch'.cap = ch.cap ∧ ch'.closed = true := by
  unfold close at h
  split at h
  · cases h
  · cases h
    exact ⟨rfl, rfl, rfl⟩

end

/-! ## What went in comes out -/

/-- The values sent are those received and those in the buffer, in this order. -/
def Flows (sent received : List α) (ch : Chan α) : Prop := sent = received ++ ch.buf

section

variable {sent received : List α} {ch ch' : Chan α} {receiver : Bool} {a : α}

theorem Flows.queued (hf : Flows sent received ch) (h : ch.trySend receiver a = .queued ch') :
    Flows (sent ++ [a]) received ch' := by
  rw [Flows, (of_queued h).2.1, ← List.append_assoc, ← hf]

/-- A value that is handed over passes the buffer, which is empty then. -/
theorem Flows.handed (hf : Flows sent received ch) (hempty : ch.buf = []) :
    Flows (sent ++ [a]) (received ++ [a]) ch := by
  rw [Flows, hempty, List.append_nil] at hf ⊢
  rw [hf]

theorem Flows.item (hf : Flows sent received ch) (h : ch.recv = .item a ch') :
    Flows sent (received ++ [a]) ch' := by
  rw [Flows, (of_item h).1] at hf
  rw [hf, Flows, List.append_assoc, List.singleton_append]

theorem Flows.of_buf (hf : Flows sent received ch) (h : ch'.buf = ch.buf) :
    Flows sent received ch' := by
  rw [Flows, h]
  exact hf

/-- An empty buffer holds nothing back. -/
theorem Flows.eq_of_empty (hf : Flows sent received ch) (h : ch.buf = []) : sent = received := by
  rw [hf, h, List.append_nil]

end

end Chan

end Concurrency
