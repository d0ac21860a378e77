/-
The click tracker (`analytics/tracker.go`), the handlers that feed it
(`handler.RedirectHandler`) and the shutdown sequence of `main.go`, in any interleaving.

Handlers offer click events to a buffered channel and never block: an event that finds the
buffer full is dropped. One worker saves what comes out. When `main` has seen `Shutdown`
return, it cancels the worker's context; the worker closes the channel, drains it, and closes
`Done`, which `main` waits for.

The tracker loses and duplicates nothing that it has accepted (`tracker_lossless`). The
reason is one equation that every step keeps: what was accepted is what was saved, what the
worker holds, and what is in the buffer, in this order (`Tracked.flows`). A second equation
closes the other side: the event of every handler that found a link is accepted or dropped,
once, or the handler has not got to its `Track` yet (`Conserved`). So the events that are
missing in the end are those that the log says were dropped, and no others.
-/
import EngineeringLab.Concurrency.Channel
import EngineeringLab.Concurrency.Machine
import Mathlib.Data.Int.Notation

set_option autoImplicit false

open Concurrency

namespace EngineeringLab.Shortener

/-! ## The parties -/

/-- `types.ClickEvent`. -/
structure ClickEvent where
  code : String
  ip : String
  timestamp : ℤ
  deriving DecidableEq, Repr

/-- A `RedirectHandler`: before its `Lookup` has answered, before `Track`, before
`http.Redirect`, and at its end. -/
inductive Redirecting where
  | lookup
  | track (event : ClickEvent)
  | redirect
  | ended
  deriving DecidableEq, Repr

/-- What a handler does next; `Lookup` may find a link or not. -/
inductive RedirectMove where
  | found (event : ClickEvent)
  | missed
  | track
  | redirect
  deriving DecidableEq, Repr

/-- `Tracker.Run`: at its `select` or blocked in it, saving an event, before `close` of the
channel, in the drain loop, before `close` of `Done`. -/
inductive Worker where
  | select
  | blocked
  | save (event : ClickEvent)
  | close
  | drain
  | drainSave (event : ClickEvent)
  | closeDone
  | returned
  deriving DecidableEq, Repr

/-- What the worker does next: at a `select` with both branches ready, either. -/
inductive WorkerMove where
  | receive
  | ctxDone
  | block
  | saveAnalytics
  | close
  deriving DecidableEq, Repr

/-- `main`, from the moment the server listens. -/
inductive Main where
  | serving
  | shutdown
  | trackerCancel
  | waitDone
  | exited (code : ℕ)
  deriving DecidableEq, Repr

/-- `ListenAndServe` fails, a signal arrives, `Shutdown` returns nil or an error, and so on. -/
inductive MainMove where
  | serverFailed
  | signal
  | shutdownNil
  | shutdownError
  | trackerCancel
  | receiveDone
  deriving DecidableEq, Repr

/-- What a run does with events; a dropped one tells how many the buffer held. -/
inductive LogEntry where
  | accepted (event : ClickEvent)
  | dropped (event : ClickEvent) (buffered : ℕ)
  | panicked (event : ClickEvent)
  | saved (event : ClickEvent)
  deriving DecidableEq, Repr

/-- The process: `analyticsChan`, whether `Done` and the worker's context are closed, the
parties, and what happened to events so far. -/
structure Process where
  analyticsChan : Chan ClickEvent
  done : Bool
  ctxDone : Bool
  worker : Worker
  handlers : List Redirecting
  main : Main
  log : List LogEntry

/-! ## Their steps -/

/-- `Tracker.Track`, called by handler `i`. A worker that is blocked in its `select` gets the
event directly; a panic ends the handler and not the server. -/
def Process.track (p : Process) (i : ℕ) (event : ClickEvent) : Process :=
  match p.analyticsChan.trySend (p.worker = .blocked) event with
  | .panicked =>
    { p with handlers := p.handlers.set i .ended, log := p.log ++ [.panicked event] }
  | .handed =>
    { p with
      worker := .save event
      handlers := p.handlers.set i .redirect
      log := p.log ++ [.accepted event] }
  | .queued ch =>
    { p with
      analyticsChan := ch
      handlers := p.handlers.set i .redirect
      log := p.log ++ [.accepted event] }
  | .dropped =>
    { p with
      handlers := p.handlers.set i .redirect
      log := p.log ++ [.dropped event p.analyticsChan.buf.length] }

/-- `RedirectHandler`. -/
def Process.redirectStep (p : Process) (i : ℕ) (move : RedirectMove) : Option Process :=
  match p.handlers[i]?, move with
  | some .lookup, .found event => some { p with handlers := p.handlers.set i (.track event) }
  -- an error is answered, and nothing is tracked
  | some .lookup, .missed => some { p with handlers := p.handlers.set i .ended }
  | some (.track event), .track => some (p.track i event)
  | some .redirect, .redirect => some { p with handlers := p.handlers.set i .ended }
  | _, _ => none

/-- `Tracker.Run`. A receive from a closed and empty channel gives the zero event, and
closing a closed channel ends the process; neither can happen. -/
def Process.workerStep (p : Process) (move : WorkerMove) : Option Process :=
  match p.worker, move with
  | .select, .receive =>
    match p.analyticsChan.recv with
    | .item event ch => some { p with analyticsChan := ch, worker := .save event }
    | .closed => some { p with worker := .save ⟨"", "", 0⟩ }
    | .blocked => none
  -- neither branch of the `select` is ready
  | .select, .block =>
    match p.analyticsChan.recv with
    | .blocked => if p.ctxDone then none else some { p with worker := .blocked }
    | _ => none
  | .select, .ctxDone => if p.ctxDone then some { p with worker := .close } else none
  | .blocked, .ctxDone => if p.ctxDone then some { p with worker := .close } else none
  | .save event, .saveAnalytics =>
    some { p with worker := .select, log := p.log ++ [.saved event] }
  | .close, .close =>
    match p.analyticsChan.close with
    | some ch => some { p with analyticsChan := ch, worker := .drain }
    | none => some { p with main := .exited 2 }
  -- `range` ends where the channel is closed and empty
  | .drain, .receive =>
    match p.analyticsChan.recv with
    | .item event ch => some { p with analyticsChan := ch, worker := .drainSave event }
    | .closed => some { p with worker := .closeDone }
    | .blocked => none
  | .drainSave event, .saveAnalytics =>
    some { p with worker := .drain, log := p.log ++ [.saved event] }
  | .closeDone, .close => some { p with done := true, worker := .returned }
  | _, _ => none

/-- `main`. `Shutdown` returns nil only where no handler is running. -/
def Process.mainStep (p : Process) (move : MainMove) : Option Process :=
  match p.main, move with
  | .serving, .serverFailed => some { p with main := .exited 1 }
  | .serving, .signal => some { p with main := .shutdown }
  | .shutdown, .shutdownNil =>
    if ∀ h ∈ p.handlers, h = .ended then some { p with main := .trackerCancel } else none
  -- `os.Exit(1)`: the tracker is not waited for
  | .shutdown, .shutdownError => some { p with main := .exited 1 }
  | .trackerCancel, .trackerCancel => some { p with ctxDone := true, main := .waitDone }
  | .waitDone, .receiveDone => if p.done then some { p with main := .exited 0 } else none
  | _, _ => none

/-- Who moves, and how. -/
inductive TrackerMove where
  | arrive
  | handler (i : ℕ) (move : RedirectMove)
  | worker (move : WorkerMove)
  | main (move : MainMove)
  deriving DecidableEq, Repr

/-- A request may still arrive: `Shutdown` has not returned. -/
def Main.listens : Main → Bool
  | .serving => true
  | .shutdown => true
  | _ => false

/-- One step of the process, until it exits. -/
def Process.step (p : Process) (move : TrackerMove) : Option Process :=
  match p.main, move with
  | .exited _, _ => none
  | main, .arrive =>
    if main.listens then some { p with handlers := p.handlers ++ [.lookup] } else none
  | _, .handler i move => p.redirectStep i move
  | _, .worker move => p.workerStep move
  | _, .main move => p.mainStep move

/-- The process with `NewTracker(bufferSize, _)`, once `main` has started the worker. -/
def tracking (bufferSize : ℕ) : Machine Process TrackerMove where
  start := ⟨.make bufferSize, false, false, .select, [], .serving, []⟩
  step := Process.step

/-! ## What was accepted, and what was saved -/

/-- The events that `Track` has got into the channel, in order. -/
def accepted (log : List LogEntry) : List ClickEvent :=
  log.filterMap fun
    | .accepted event => some event
    | _ => none

/-- The events that found the buffer full, in order. -/
def dropped (log : List LogEntry) : List ClickEvent :=
  log.filterMap fun
    | .dropped event _ => some event
    | _ => none

/-- The events passed to `SaveAnalytics`, in order. -/
def saved (log : List LogEntry) : List ClickEvent :=
  log.filterMap fun
    | .saved event => some event
    | _ => none

section

variable (log : List LogEntry) (event : ClickEvent) (n : ℕ)

@[simp] theorem accepted_accepted :
    accepted (log ++ [.accepted event]) = accepted log ++ [event] := by
  simp [accepted]

@[simp] theorem accepted_dropped : accepted (log ++ [.dropped event n]) = accepted log := by
  simp [accepted]

@[simp] theorem accepted_saved : accepted (log ++ [.saved event]) = accepted log := by
  simp [accepted]

@[simp] theorem dropped_accepted : dropped (log ++ [.accepted event]) = dropped log := by
  simp [dropped]

@[simp] theorem dropped_dropped :
    dropped (log ++ [.dropped event n]) = dropped log ++ [event] := by
  simp [dropped]

@[simp] theorem dropped_saved : dropped (log ++ [.saved event]) = dropped log := by
  simp [dropped]

@[simp] theorem saved_accepted : saved (log ++ [.accepted event]) = saved log := by
  simp [saved]

@[simp] theorem saved_dropped : saved (log ++ [.dropped event n]) = saved log := by
  simp [saved]

@[simp] theorem saved_saved : saved (log ++ [.saved event]) = saved log ++ [event] := by
  simp [saved]

end

/-- What the worker holds: received, and not yet passed to `SaveAnalytics`. -/
def Worker.hand : Worker → List ClickEvent
  | .save event => [event]
  | .drainSave event => [event]
  | _ => []

/-- Has the worker closed the channel? -/
def Worker.hasClosed : Worker → Bool
  | .drain => true
  | .drainSave _ => true
  | .closeDone => true
  | .returned => true
  | _ => false

/-- Has the drain loop ended? -/
def Worker.drained : Worker → Bool
  | .closeDone => true
  | .returned => true
  | _ => false

attribute [simp] Worker.hand Worker.hasClosed Worker.drained

/-- Has `Shutdown` returned nil? -/
def Main.stopped : Main → Bool
  | .trackerCancel => true
  | .waitDone => true
  | .exited code => code = 0
  | _ => false

/-- What every step of the process keeps. -/
structure Tracked (bufferSize : ℕ) (p : Process) : Prop where
  cap : p.analyticsChan.cap = bufferSize
  flows : Chan.Flows (accepted p.log) (saved p.log ++ p.worker.hand) p.analyticsChan
  blocked : p.worker = .blocked → p.analyticsChan.buf = []
  closed : p.analyticsChan.closed = p.worker.hasClosed
  drained : p.worker.drained = true → p.analyticsChan.buf = []
  done : p.done = true → p.worker = .returned
  stopping : p.worker = .close ∨ p.worker.hasClosed = true → p.ctxDone = true
  cancelled : p.ctxDone = true → p.main.stopped = true
  quiet : p.main.stopped = true → ∀ h ∈ p.handlers, h = .ended
  noPanic : ∀ event, .panicked event ∉ p.log
  full : ∀ event n, .dropped event n ∈ p.log → n = bufferSize

section

variable {bufferSize : ℕ} {p p' : Process}

/-- While a handler runs, `Shutdown` has not returned. -/
theorem Tracked.not_stopped (ht : Tracked bufferSize p) {i : ℕ} {h : Redirecting}
    (hi : p.handlers[i]? = some h) (hrun : h ≠ .ended) : p.main.stopped = false := by
  by_contra hstopped
  rw [Bool.not_eq_false] at hstopped
  exact hrun (ht.quiet hstopped h (List.mem_of_getElem? hi))

/-- So the context is open, and the channel too. -/
theorem Tracked.open (ht : Tracked bufferSize p) {i : ℕ} {h : Redirecting}
    (hi : p.handlers[i]? = some h) (hrun : h ≠ .ended) : p.worker.hasClosed = false := by
  by_contra hclosed
  rw [Bool.not_eq_false] at hclosed
  have hstopped := ht.cancelled (ht.stopping (.inr hclosed))
  rw [ht.not_stopped hi hrun] at hstopped
  cases hstopped

/-- A handler that moves leaves the rest as it is. -/
theorem Tracked.set_handler (ht : Tracked bufferSize p) {i : ℕ} {h h' : Redirecting}
    (hi : p.handlers[i]? = some h) (hrun : h ≠ .ended) :
    Tracked bufferSize { p with handlers := p.handlers.set i h' } := by
  have hopen := ht.not_stopped hi hrun
  exact { ht with quiet := fun hstopped => by rw [hopen] at hstopped; cases hstopped }

/-- `Track` finds the channel open, and what it accepts goes behind what was accepted. -/
theorem Tracked.track (ht : Tracked bufferSize p) {i : ℕ} {event : ClickEvent}
    (hi : p.handlers[i]? = some (.track event)) : Tracked bufferSize (p.track i event) := by
  have hset : Tracked bufferSize { p with handlers := p.handlers.set i .redirect } :=
    ht.set_handler hi (by simp)
  have hopen : p.analyticsChan.closed = false := by rw [ht.closed, ht.open hi (by simp)]
  unfold Process.track
  cases hsend : p.analyticsChan.trySend (p.worker = .blocked) event with
  | panicked =>
      rw [Chan.closed_of_panicked hsend] at hopen
      cases hopen
  | handed =>
      -- the worker is blocked, so the buffer is empty and the event is the next to be saved
      have hblocked : p.worker = .blocked := by simpa using Chan.receiver_of_handed hsend
      have hhand : p.worker.hand = [] := by rw [hblocked]; rfl
      have hflows := ht.flows
      rw [hhand, List.append_nil] at hflows
      refine { hset with
        flows := ?_, blocked := ?_, closed := ?_, drained := ?_, done := ?_, stopping := ?_
        noPanic := ?_, full := ?_ }
      · simpa [Worker.hand] using hflows.handed (ht.blocked hblocked)
      · intro h
        cases h
      · rw [hopen]
        rfl
      · intro h
        cases h
      · intro hdone
        rw [ht.done hdone] at hblocked
        cases hblocked
      · rintro (h | h) <;> cases h
      · simpa using ht.noPanic
      · simpa using ht.full
  | queued ch =>
      obtain ⟨hreceiver, hbuf, hcap, hclosed⟩ := Chan.of_queued hsend
      have hworker : p.worker ≠ .blocked := by simpa using hreceiver
      refine { hset with
        cap := ?_, flows := ?_, blocked := ?_, closed := ?_, drained := ?_, noPanic := ?_
        full := ?_ }
      · rw [hcap, ht.cap]
      · simpa using ht.flows.queued hsend
      · exact fun h => absurd h hworker
      · rw [hclosed, ht.closed]
      · intro h
        have hopen' := ht.open hi (by simp)
        cases hw : p.worker <;> simp [hw, Worker.drained, Worker.hasClosed] at h hopen'
      · simpa using ht.noPanic
      · simpa using ht.full
  | dropped =>
      have hfull := Chan.full_of_dropped hsend
      refine { hset with flows := ?_, noPanic := ?_, full := ?_ }
      · simpa using ht.flows
      · simpa using ht.noPanic
      · intro event' n hn
        rcases List.mem_append.mp hn with hn | hn
        · exact ht.full event' n hn
        · cases List.mem_singleton.mp hn
          rw [hfull, ht.cap]

theorem Tracked.redirectStep (ht : Tracked bufferSize p) {i : ℕ} {move : RedirectMove}
    (h : p.redirectStep i move = some p') : Tracked bufferSize p' := by
  unfold Process.redirectStep at h
  split at h
  · rename_i hi
    cases h
    exact ht.set_handler hi (by simp)
  · rename_i hi
    cases h
    exact ht.set_handler hi (by simp)
  · rename_i hi
    cases h
    exact ht.track hi
  · rename_i hi
    cases h
    exact ht.set_handler hi (by simp)
  · cases h

/-- A worker that goes on and has not closed the channel: what it holds and what is in the
buffer is what it owes. -/
theorem Tracked.work (ht : Tracked bufferSize p) {ch : Chan ClickEvent} {w : Worker}
    (hcap : ch.cap = p.analyticsChan.cap) (hclosed : ch.closed = p.analyticsChan.closed)
    (hw : w.hasClosed = p.worker.hasClosed) (hstop : w = .close → p.ctxDone = true)
    (hflows : Chan.Flows (accepted p.log) (saved p.log ++ w.hand) ch)
    (hblocked : w = .blocked → ch.buf = []) (hdrained : w.drained = true → ch.buf = [])
    (hdone : p.worker ≠ .returned) :
    Tracked bufferSize { p with analyticsChan := ch, worker := w } := by
  refine { ht with
    cap := ?_, flows := hflows, blocked := hblocked, closed := ?_, drained := hdrained
    done := ?_, stopping := ?_ }
  · rw [hcap, ht.cap]
  · rw [hclosed, ht.closed, hw]
  · exact fun hd => absurd (ht.done hd) hdone
  · rintro (h | h)
    · exact hstop h
    · exact ht.stopping (.inr (hw.symm.trans h))

/-- The event that the worker holds is the next that it owes. -/
theorem Tracked.save (ht : Tracked bufferSize p) {event : ClickEvent} {w : Worker}
    (hhand : p.worker.hand = [event]) (hclosed : w.hasClosed = p.worker.hasClosed)
    (hnext : w = .select ∨ w = .drain) :
    Tracked bufferSize { p with worker := w, log := p.log ++ [.saved event] } := by
  have hflows := ht.flows
  rw [hhand] at hflows
  refine { ht with
    flows := ?_, blocked := ?_, closed := ?_, drained := ?_, done := ?_, stopping := ?_
    noPanic := ?_, full := ?_ }
  · rcases hnext with rfl | rfl <;> simpa using hflows
  · rcases hnext with rfl | rfl <;> exact fun h => by cases h
  · rw [ht.closed, hclosed]
  · rcases hnext with rfl | rfl <;> exact fun h => by cases h
  · intro hd
    rw [ht.done hd] at hhand
    cases hhand
  · rcases hnext with rfl | rfl
    · rintro (h | h) <;> cases h
    · exact fun _ => ht.stopping (.inr hclosed.symm)
  · simpa using ht.noPanic
  · simpa using ht.full

/-- The worker receives an event, at its `select` or in the drain loop. -/
theorem Tracked.receive (ht : Tracked bufferSize p) {event : ClickEvent} {ch : Chan ClickEvent}
    {w : Worker} (hrecv : p.analyticsChan.recv = .item event ch) (hfree : p.worker.hand = [])
    (hrun : p.worker ≠ .returned) (hclosed : w.hasClosed = p.worker.hasClosed)
    (hnext : w = .save event ∨ w = .drainSave event) :
    Tracked bufferSize { p with analyticsChan := ch, worker := w } := by
  obtain ⟨-, hcap, hsame⟩ := Chan.of_item hrecv
  have hflows := ht.flows
  rw [hfree, List.append_nil] at hflows
  have hitem := hflows.item hrecv
  rcases hnext with rfl | rfl
  · exact ht.work hcap hsame hclosed (by simp) hitem (by simp) (by simp) hrun
  · exact ht.work hcap hsame hclosed (by simp) hitem (by simp) (by simp) hrun

/-- The context of a worker that waits is cancelled. -/
theorem Tracked.leave (ht : Tracked bufferSize p) (hw : p.worker = .select ∨ p.worker = .blocked)
    (hctx : p.ctxDone = true) : Tracked bufferSize { p with worker := .close } := by
  have hflows := ht.flows
  rcases hw with hw | hw
  · exact ht.work rfl rfl (by simp [hw]) (fun _ => hctx) (by simpa [hw] using hflows)
      (by simp) (by simp) (by simp [hw])
  · exact ht.work rfl rfl (by simp [hw]) (fun _ => hctx) (by simpa [hw] using hflows)
      (by simp) (by simp) (by simp [hw])

/-- `close(t.analyticsChan)`: the handlers have ended, for the context is cancelled. -/
theorem Tracked.closeChan (ht : Tracked bufferSize p) {ch : Chan ClickEvent}
    (hw : p.worker = .close) (hclose : p.analyticsChan.close = some ch) :
    Tracked bufferSize { p with analyticsChan := ch, worker := .drain } := by
  have hctx := ht.stopping (.inl hw)
  obtain ⟨hbuf, hcap, hclosed⟩ := Chan.of_close hclose
  refine { ht with
    cap := ?_, flows := ?_, blocked := ?_, closed := ?_, drained := ?_, done := ?_
    stopping := ?_ }
  · rw [hcap, ht.cap]
  · simpa [hw] using ht.flows.of_buf hbuf
  · simp
  · simp [hclosed]
  · simp
  · intro hd
    rw [ht.done hd] at hw
    cases hw
  · exact fun _ => hctx

/-- `close(t.Done)`. -/
theorem Tracked.closeDone (ht : Tracked bufferSize p) (hw : p.worker = .closeDone) :
    Tracked bufferSize { p with done := true, worker := .returned } := by
  have hempty := ht.drained (by simp [hw])
  refine { ht with
    flows := ?_, blocked := ?_, closed := ?_, drained := ?_, done := ?_, stopping := ?_ }
  · simpa [hw] using ht.flows
  · simp
  · simp [ht.closed, hw]
  · exact fun _ => hempty
  · simp
  · exact fun _ => ht.stopping (by simp [hw])

theorem Tracked.workerStep (ht : Tracked bufferSize p) {move : WorkerMove}
    (h : p.workerStep move = some p') : Tracked bufferSize p' := by
  have hflows := ht.flows
  unfold Process.workerStep at h
  split at h
  · -- `case event := <-t.analyticsChan`
    rename_i hw
    split at h
    · rename_i event ch hrecv
      cases h
      exact ht.receive hrecv (by rw [hw]; rfl) (by simp [hw]) (by simp [hw]) (.inl rfl)
    · -- the worker has not closed the channel, and nobody else does
      rename_i hrecv
      have hopen := (Chan.of_recv_closed hrecv).2
      rw [ht.closed, hw] at hopen
      cases hopen
    · cases h
  · -- neither branch is ready
    rename_i hw
    split at h
    · rename_i hrecv
      split at h
      · cases h
      · cases h
        exact ht.work rfl rfl (by simp [hw]) (by simp) (by simpa [hw] using hflows)
          (fun _ => Chan.empty_of_blocked hrecv) (by simp) (by simp [hw])
    · cases h
  · -- `case <-ctx.Done()`
    rename_i hw
    split at h
    · rename_i hctx
      cases h
      -- only a context that is done lets the worker leave its loop
      exact ht.leave (.inl hw) hctx
    · cases h
  · rename_i hw
    split at h
    · rename_i hctx
      cases h
      exact ht.leave (.inr hw) hctx
    · cases h
  · rename_i event hw
    cases h
    -- the event in hand goes to the table, from the loop
    exact ht.save (by rw [hw]; rfl) (by simp [hw]) (.inl rfl)
  · rename_i hw
    split at h
    · rename_i ch hclose
      cases h
      -- `close(t.analyticsChan)`, which would panic at a closed channel
      exact ht.closeChan hw hclose
    · rename_i hclose
      have hclosed : p.analyticsChan.closed = true := by simpa [Chan.close] using hclose
      rw [ht.closed, hw] at hclosed
      cases hclosed
  · -- `for event := range t.analyticsChan`
    rename_i hw
    split at h
    · rename_i event ch hrecv
      cases h
      exact ht.receive hrecv (by rw [hw]; rfl) (by simp [hw]) (by simp [hw]) (.inr rfl)
    · rename_i hrecv
      cases h
      exact ht.work rfl rfl (by simp [hw]) (by simp) (by simpa [hw] using hflows) (by simp)
        (fun _ => (Chan.of_recv_closed hrecv).1) (by simp [hw])
    · cases h
  · rename_i event hw
    cases h
    exact ht.save (by rw [hw]; rfl) (by simp [hw]) (.inr rfl)
  · rename_i hw
    cases h
    -- `close(t.done)`: everything has been saved by now
    exact ht.closeDone hw
  · cases h

/-- `main` goes on, and `Shutdown` has not returned nil. -/
theorem Tracked.serve (ht : Tracked bufferSize p) {m : Main} (hmain : p.main.stopped = false)
    (hm : m.stopped = false) : Tracked bufferSize { p with main := m } := by
  refine { ht with cancelled := fun hctx => ?_, quiet := fun hstopped => ?_ }
  · have hstopped := ht.cancelled hctx
    rw [hmain] at hstopped
    cases hstopped
  · rw [hm] at hstopped
    cases hstopped

theorem Tracked.mainStep (ht : Tracked bufferSize p) {move : MainMove}
    (h : p.mainStep move = some p') : Tracked bufferSize p' := by
  unfold Process.mainStep at h
  split at h
  · rename_i hmain
    cases h
    exact ht.serve (by rw [hmain]; rfl) (by simp [Main.stopped])
  · rename_i hmain
    cases h
    exact ht.serve (by rw [hmain]; rfl) (by simp [Main.stopped])
  · -- `Shutdown` returns nil
    rename_i hmain
    split at h
    · rename_i hended
      cases h
      exact { ht with cancelled := fun _ => rfl, quiet := fun _ => hended }
    · cases h
  · rename_i hmain
    cases h
    exact ht.serve (by rw [hmain]; rfl) (by simp [Main.stopped])
  · -- `trackerCancel()`
    rename_i hmain
    cases h
    have hended := ht.quiet (by rw [hmain]; rfl)
    exact { ht with
      stopping := fun _ => rfl, cancelled := fun _ => rfl, quiet := fun _ => hended }
  · rename_i hmain
    split at h
    · cases h
      have hended := ht.quiet (by rw [hmain]; rfl)
      exact { ht with cancelled := fun _ => rfl, quiet := fun _ => hended }
    · cases h
  · cases h

theorem Tracked.step (ht : Tracked bufferSize p) {move : TrackerMove}
    (h : p.step move = some p') : Tracked bufferSize p' := by
  unfold Process.step at h
  split at h
  · cases h
  · rename_i hmain
    split at h
    · -- a new handler: the server still listens
      rename_i hlistens
      cases h
      refine { ht with quiet := fun hstopped => ?_ }
      cases hm : p.main <;> simp [hm, Main.listens, Main.stopped] at hlistens hstopped
    · cases h
  · exact ht.redirectStep h
  · exact ht.workerStep h
  · exact ht.mainStep h

/-- What every run of the process has. -/
theorem tracked {moves : List TrackerMove} (h : (tracking bufferSize).run moves = some p) :
    Tracked bufferSize p := by
  refine Machine.invariant (I := Tracked bufferSize) ?_ (fun _ _ _ ht hstep => ht.step hstep) h
  constructor <;> simp [tracking, Chan.make, accepted, saved, Main.stopped, Chan.Flows]

/-- At every moment, what is saved is the beginning of what was accepted. -/
theorem saved_prefix {moves : List TrackerMove} (h : (tracking bufferSize).run moves = some p) :
    saved p.log <+: accepted p.log := by
  have hflows := (tracked h).flows
  rw [Chan.Flows, List.append_assoc] at hflows
  exact ⟨_, hflows.symm⟩

/-! ## What became of every event -/

/-- The events of the handlers whose `Lookup` found a link. -/
def found (moves : List TrackerMove) : List ClickEvent :=
  moves.filterMap fun
    | .handler _ (.found event) => some event
    | _ => none

/-- Every event was accepted or dropped, once, or its handler is still to call `Track`. -/
def Conserved (moves : List TrackerMove) (p : Process) : Prop :=
  ∀ event, (found moves).count event =
    (accepted p.log).count event + (dropped p.log).count event + p.handlers.count (.track event)

/-- `Track` writes one entry, which says what became of its event. -/
theorem Tracked.track_log (ht : Tracked bufferSize p) {i : ℕ} {event : ClickEvent}
    (hi : p.handlers[i]? = some (.track event)) :
    (p.track i event).handlers = p.handlers.set i .redirect ∧
      ((p.track i event).log = p.log ++ [.accepted event] ∨
        (p.track i event).log = p.log ++ [.dropped event bufferSize]) := by
  have hopen : p.analyticsChan.closed = false := by rw [ht.closed, ht.open hi (by simp)]
  unfold Process.track
  cases hsend : p.analyticsChan.trySend (p.worker = .blocked) event with
  | panicked =>
      rw [Chan.closed_of_panicked hsend] at hopen
      cases hopen
  | handed => exact ⟨rfl, .inl rfl⟩
  | queued ch => exact ⟨rfl, .inl rfl⟩
  | dropped =>
      refine ⟨rfl, .inr ?_⟩
      rw [Chan.full_of_dropped hsend, ht.cap]

/-- How often a handler occurs after one of them has moved. -/
theorem count_set_handler {handlers : List Redirecting} {i : ℕ} {h : Redirecting}
    (hi : handlers[i]? = some h) (h' x : Redirecting) :
    (handlers.set i h').count x + (if h = x then 1 else 0) =
      handlers.count x + (if h' = x then 1 else 0) := by
  obtain ⟨hlt, hget⟩ := List.getElem?_eq_some_iff.mp hi
  rw [List.count_set hlt, hget]
  by_cases hx : h = x
  · have hpos : 0 < handlers.count x := List.count_pos_iff.mpr (hx ▸ List.mem_of_getElem? hi)
    simp only [hx, beq_self_eq_true, if_true, beq_iff_eq]
    omega
  · simp [hx]

theorem Conserved.redirectStep (ht : Tracked bufferSize p) {moves : List TrackerMove}
    (hc : Conserved moves p) {i : ℕ} {move : RedirectMove}
    (h : p.redirectStep i move = some p') : Conserved (moves ++ [.handler i move]) p' := by
  intro x
  have hx := hc x
  unfold Process.redirectStep at h
  split at h
  · -- the link is found: one more event
    rename_i event hi
    cases h
    have hset := count_set_handler hi (.track event) (.track x)
    by_cases he : event = x
    · simp [found, he] at hx hset ⊢
      omega
    · simp [found, he] at hx hset ⊢
      omega
  · rename_i hi
    cases h
    -- no link: the handler ends, and there is no event
    have hset := count_set_handler hi .ended (.track x)
    simp [found] at hx hset ⊢
    omega
  · -- its event leaves the handler and enters the log
    rename_i event hi
    cases h
    obtain ⟨hhandlers, hlog⟩ := ht.track_log hi
    have hset := count_set_handler hi .redirect (.track x)
    rcases hlog with hlog | hlog
    · rw [hhandlers, hlog]
      by_cases he : event = x
      · simp [found, he] at hx hset ⊢
        omega
      · simp [found, he] at hx hset ⊢
        omega
    · rw [hhandlers, hlog]
      by_cases he : event = x
      · simp [found, he] at hx hset ⊢
        omega
      · simp [found, he] at hx hset ⊢
        omega
  · rename_i hi
    cases h
    have hset := count_set_handler hi .ended (.track x)
    simp [found] at hx hset ⊢
    omega
  · cases h

/-- The worker leaves the handlers alone, and what was accepted and dropped. -/
theorem workerStep_others {move : WorkerMove} (h : p.workerStep move = some p') :
    p'.handlers = p.handlers ∧ accepted p'.log = accepted p.log ∧
      dropped p'.log = dropped p.log := by
  unfold Process.workerStep at h
  split at h <;> (try split at h) <;> (try split at h) <;> cases h <;> simp

/-- `main` touches nothing but its own state and the context. -/
theorem mainStep_others {move : MainMove} (h : p.mainStep move = some p') :
    p'.handlers = p.handlers ∧ p'.log = p.log := by
  unfold Process.mainStep at h
  split at h <;> (try split at h) <;> cases h <;> exact ⟨rfl, rfl⟩

theorem Conserved.step (ht : Tracked bufferSize p) {moves : List TrackerMove}
    (hc : Conserved moves p) {move : TrackerMove} (h : p.step move = some p') :
    Conserved (moves ++ [move]) p' := by
  unfold Process.step at h
  split at h
  · cases h
  · split at h
    · cases h
      intro x
      have hx := hc x
      simpa [found] using hx
    · cases h
  · exact hc.redirectStep ht h
  · -- the worker takes events out of the channel, and these stay on the list of the accepted
    obtain ⟨hhandlers, haccepted, hdropped⟩ := workerStep_others h
    intro x
    have hx := hc x
    rw [hhandlers, haccepted, hdropped]
    simpa [found] using hx
  · obtain ⟨hhandlers, hlog⟩ := mainStep_others h
    intro x
    have hx := hc x
    rw [hhandlers, hlog]
    simpa [found] using hx

theorem conserved {moves : List TrackerMove} (h : (tracking bufferSize).run moves = some p) :
    Conserved moves p := by
  have hboth : Tracked bufferSize p ∧ Conserved moves p := by
    have hnew : Tracked bufferSize (tracking bufferSize).start :=
      tracked (rfl : (tracking bufferSize).run [] = some _)
    refine Machine.invariant_along (I := fun past q => Tracked bufferSize q ∧ Conserved past q)
      ⟨hnew, fun _ => rfl⟩ ?_ h
    rintro past q move q' ⟨ht, hc⟩ hstep
    exact ⟨ht.step hstep, hc.step ht hstep⟩
  exact hboth.2

/-- **The tracker loses and duplicates nothing that it accepted**: in every run, no `Track`
sends on the closed channel, an event is dropped only where the buffer is full, and once
`Done` is closed the events saved are those accepted, each once and in their order. At any
moment the events saved are the first of those accepted, and the event of every handler that
found a link was accepted or dropped, once, or its handler is still to call `Track`. -/
theorem tracker_lossless {moves : List TrackerMove}
    (h : (tracking bufferSize).run moves = some p) :
    (∀ event, .panicked event ∉ p.log) ∧
      (∀ event n, .dropped event n ∈ p.log → n = bufferSize) ∧
      (p.done = true → saved p.log = accepted p.log) ∧
      saved p.log <+: accepted p.log ∧
      ∀ event, (found moves).count event = (accepted p.log).count event +
        (dropped p.log).count event + p.handlers.count (.track event) := by
  have ht := tracked h
  refine ⟨ht.noPanic, ht.full, fun hdone => ?_, saved_prefix h, conserved h⟩
  have hreturned := ht.done hdone
  have hempty := ht.drained (by rw [hreturned]; rfl)
  have hall := ht.flows.eq_of_empty hempty
  simp [hall, hreturned]

end

/-- Three redirects find a buffer of one place; the signal comes while it holds the third. -/
def lastOfThree : List TrackerMove :=
  [.arrive, .arrive, .arrive,
   .handler 0 (.found ⟨"a", "10.0.0.1", 1⟩), .handler 1 (.found ⟨"b", "10.0.0.2", 2⟩),
   .handler 2 (.found ⟨"c", "10.0.0.3", 3⟩), .handler 0 .track, .handler 1 .track,
   .worker .receive, .handler 2 .track, .worker .saveAnalytics, .main .signal,
   .handler 0 .redirect, .handler 1 .redirect, .handler 2 .redirect, .main .shutdownNil,
   .main .trackerCancel, .worker .ctxDone, .worker .close, .worker .receive,
   .worker .saveAnalytics, .worker .receive, .worker .close, .main .receiveDone]

/-- The second is dropped; the third is still in the buffer when the context is cancelled,
and is saved in the drain. -/
theorem tracker_lossless_example :
    ∃ p, (tracking 1).run lastOfThree = some p ∧ p.done = true ∧ saved p.log = accepted p.log ∧
      saved p.log = [⟨"a", "10.0.0.1", 1⟩, ⟨"c", "10.0.0.3", 3⟩] ∧
      ∀ event, (found lastOfThree).count event =
        (saved p.log).count event + (dropped p.log).count event := by
  obtain ⟨p, hp⟩ : ∃ p, (tracking 1).run lastOfThree = some p := ⟨_, rfl⟩
  have hend : ((tracking 1).run lastOfThree).map (fun p => (p.done, saved p.log, p.handlers)) =
      some (true, [⟨"a", "10.0.0.1", 1⟩, ⟨"c", "10.0.0.3", 3⟩], [.ended, .ended, .ended]) := rfl
  simp only [hp, Option.map_some, Option.some.injEq, Prod.mk.injEq] at hend
  obtain ⟨hdone, hlist, hhandlers⟩ := hend
  obtain ⟨-, -, hsaved, -, hconserved⟩ := tracker_lossless hp
  refine ⟨p, hp, hdone, hsaved hdone, hlist, fun event => ?_⟩
  rw [hconserved event, hsaved hdone, hhandlers]
  simp

end EngineeringLab.Shortener
