/-
`App.RedirectHandler` (`handler/handler.go`), in the two ways in which `main` puts the
application together.

In production the handler reads a `CachedStore` over `PgStore` and feeds a running
tracker. Otherwise it reads a `MemoryStore`, and `main` assigns its variable `tracker`,
a nil `*analytics.Tracker`, to the interface field `App.Tracker`. An interface that holds
a nil pointer is not nil, so the handler's check does not see it and `Track` reads a field
through it: every lookup that finds a link ends in a panic, after the redirect was counted
and before it was answered. All other lookups are answered as they should be in both
(`redirect_outcomes_iff`).

The tracker's channel is a Go channel with a buffer, and an event is offered without
waiting. In both wirings the handler's calls are the same program; what differs is what
`App.Tracker` holds. An interface value is a type with a value, and comparing it with `nil`
asks for the type (`Interface`). The type of a nil pointer is there, so the comparison is
false, and the method that is called on it reads through the pointer.

A run is related to what it should have done by `Outcome`: the status, the redirect, the
counter and the event, for each result that a lookup may have.
-/
import EngineeringLab.Concurrency.Interpret
import EngineeringLab.Shortener.CacheTransparency
import EngineeringLab.Shortener.Stores
import EngineeringLab.Shortener.Tracker

set_option autoImplicit false

open Concurrency

namespace EngineeringLab.Shortener

/-! ## Pointers and interfaces -/

/-- A value of an interface type that pointers of type `P` implement: nothing at all, or
a pointer, which may be the nil pointer. -/
inductive Interface (P : Type) where
  | nil
  | of (p : P)
  deriving DecidableEq, Repr

/-- `*analytics.Tracker`: nil, or the tracker that `NewTracker` made. -/
inductive TrackerPointer where
  | nil
  | tracker
  deriving DecidableEq, Repr

/-- A run-time panic. -/
inductive Panic where
  | nilDereference
  | sendOnClosedChannel
  deriving DecidableEq, Repr

/-! ## The handler -/

/-- What `RedirectHandler` answers: `http.Error`, or `http.Redirect` to a URL. -/
inductive RedirectResponse where
  | httpError (error : String) (code : ℕ)
  | redirect (url : String) (code : ℕ)
  deriving DecidableEq, Repr

def RedirectResponse.status : RedirectResponse → ℕ
  | .httpError _ code => code
  | .redirect _ code => code

/-- The calls of the handler. `send` is the `select` in `Track`. -/
inductive RedirectCall : Type where
  | lookup (code : String)
  | totalRedirectsAdd
  | timeNow
  | send (event : ClickEvent)

abbrev RedirectAnswer : RedirectCall → Type
  | .lookup _ => Option LookupResult × Option StoreError
  | .totalRedirectsAdd => Unit
  | .timeNow => Time
  | .send _ => Except Panic Unit

abbrev RedirectProg (α : Type) : Type := Prog RedirectCall RedirectAnswer Panic α

/-- `Tracker.Track` on a pointer: it reads the field `analyticsChan` first. -/
def TrackerPointer.track (t : TrackerPointer) (event : ClickEvent) : RedirectProg Unit :=
  match t with
  | .nil => .throw .nilDereference
  | .tracker => .call (.send event) fun
    | .ok () => .ret ()
    | .error p => .throw p

/-- The method call through the interface. -/
def Interface.track (t : Interface TrackerPointer) (event : ClickEvent) : RedirectProg Unit :=
  match t with
  | .nil => .throw .nilDereference
  | .of p => p.track event

/-- `App.RedirectHandler`, with `tracker` the field `App.Tracker`. -/
def App.redirectHandler (tracker : Interface TrackerPointer) (code clientIP : String) :
    RedirectProg RedirectResponse := do
  if code = "" then
    return .httpError "code missing" 400
  else
    let (val, err) ← Prog.call (.lookup code) .ret
    if err = some .errExpired then
      return .httpError "Link Expired" 410
    else if err ≠ none then
      return .httpError "Internal server error" 500
    else
      match val with
      | some val => do
        Prog.call .totalRedirectsAdd .ret
        if tracker ≠ .nil then
          let now ← Prog.call .timeNow .ret
          tracker.track ⟨code, clientIP, now.instant⟩
        return .redirect val.url 302
      | none => return .httpError "Short URL not found" 404

/-! ## The wiring -/

/-- What `main` puts together: with `ENV=PROD`, or without. -/
inductive Wiring where
  | prod (cs : CachedStore)
  | default

namespace Wiring

/-- `main`'s variable `tracker`. -/
def tracker : Wiring → TrackerPointer
  | prod _ => .tracker
  | default => .nil

/-- The field `App.Tracker`: the variable as a value of the interface `handler.Tracker`. -/
def appTracker (w : Wiring) : Interface TrackerPointer := .of w.tracker

/-- What the store stands on. -/
abbrev State : Wiring → Type
  | prod _ => Env
  | default => MemoryEnv

/-- One `Lookup` of the store. -/
def lookup : (w : Wiring) → w.State → String → Option LookupResult × Option StoreError →
    w.State → Prop
  | prod cs => fun e code r e' => (cs.lookup code).Ends Exec e (.ok r) e'
  | default => memoryStore.lookup

/-- The store, the counter and the tracker's channel, which the default wiring does not
have. `offered` is a ghost: the events that were sent, dropped ones included. -/
structure Server (w : Wiring) where
  store : w.State
  totalRedirects : ℕ
  analyticsChan : Chan ClickEvent
  offered : List ClickEvent

/-- How a send ends for the handler. -/
def sendAnswer : Chan.Sent ClickEvent → Except Panic Unit
  | .panicked => .error .sendOnClosedChannel
  | _ => .ok ()

/-- The channel after a send. -/
def sendChan (ch : Chan ClickEvent) : Chan.Sent ClickEvent → Chan ClickEvent
  | .queued ch' => ch'
  | _ => ch

/-- What the calls of the handler may answer and do. The worker may be waiting for an
event or not. -/
inductive Serves (w : Wiring) :
    Server w → (c : RedirectCall) → RedirectAnswer c → Server w → Prop
  | lookup {st : Server w} {code : String} {r : Option LookupResult × Option StoreError}
      {s : w.State} (h : w.lookup st.store code r s) :
      Serves w st (.lookup code) r { st with store := s }
  | totalRedirectsAdd {st : Server w} :
      Serves w st .totalRedirectsAdd () { st with totalRedirects := st.totalRedirects + 1 }
  | timeNow {st : Server w} (now : Time) : Serves w st .timeNow now st
  | send {st : Server w} {event : ClickEvent} (receiver : Bool) :
      Serves w st (.send event) (sendAnswer (st.analyticsChan.trySend receiver event))
        { st with
          analyticsChan := sendChan st.analyticsChan (st.analyticsChan.trySend receiver event)
          offered := st.offered ++ [event] }

end Wiring

/-! ## What a run does -/

/-- The answers of the lookups among the calls of a run. -/
def lookups (made : List (Prog.Made RedirectCall RedirectAnswer)) :
    List (Option LookupResult × Option StoreError) :=
  made.filterMap fun m => match m with
    | ⟨.lookup _, r⟩ => some r
    | _ => none

section

variable {w : Wiring} {st st' : w.Server} {code clientIP : String}

/-- The end of a run whose lookup answered `r` and left the store as `s`. -/
def Handled (w : Wiring) (st : w.Server) (code : String) (s : w.State)
    (o : Except Panic RedirectResponse) (st' : w.Server) :
    Option LookupResult × Option StoreError → Prop
  | (_, some .errExpired) =>
    o = .ok (.httpError "Link Expired" 410) ∧ st' = { st with store := s }
  | (_, some (.database _)) =>
    o = .ok (.httpError "Internal server error" 500) ∧ st' = { st with store := s }
  | (none, none) =>
    o = .ok (.httpError "Short URL not found" 404) ∧ st' = { st with store := s }
  | (some val, none) =>
    st'.totalRedirects = st.totalRedirects + 1 ∧
      match w.tracker with
      | .nil => o = .error .nilDereference ∧ st'.offered = st.offered
      | .tracker => st.analyticsChan.closed = false → o = .ok (.redirect val.url 302) ∧
          ∃ event, event.code = code ∧ st'.offered = st.offered ++ [event]

/-- A send on an open channel does not panic. -/
theorem sendAnswer_of_open {ch : Chan ClickEvent} (h : ch.closed = false) (receiver : Bool)
    (event : ClickEvent) : Wiring.sendAnswer (ch.trySend receiver event) = .ok () := by
  cases hsent : ch.trySend receiver event with
  | panicked =>
      rw [Chan.closed_of_panicked hsent] at h
      cases h
  | _ => rfl

/-- **The handler** makes one lookup, and its answer decides. -/
theorem redirectHandler_always (hcode : code ≠ "") (st : w.Server) :
    (App.redirectHandler w.appTracker code clientIP).Always (Prog.logged w.Serves) (st, [])
      fun o st' => ∃ r s, w.lookup st.store code r s ∧ lookups st'.2 = [r] ∧
        Handled w st code s o st'.1 r := by
  unfold App.redirectHandler
  rw [if_neg hcode]
  rintro ⟨val, err⟩ ⟨st₁, made₁⟩ ⟨hserves, hmade⟩
  dsimp only at hserves hmade
  subst hmade
  cases hserves with
  | lookup hlookup =>
      rename_i s
      rcases err with _ | _ | msg
      · cases val with
        | none => exact ⟨_, s, hlookup, rfl, rfl, rfl⟩
        | some val =>
            -- A link: `RedirectCounter.Add`, then the clock, then the tracker.
            rintro ⟨⟩ ⟨st₂, made₂⟩ ⟨hadd, hmade⟩
            dsimp only at hadd hmade
            subst hmade
            cases hadd
            rintro now ⟨st₃, made₃⟩ ⟨hnow, hmade⟩
            dsimp only at hnow hmade
            subst hmade
            cases hnow
            cases w with
            -- Without `ENV=PROD` the `tracker` of `main` is nil, and the send dereferences it.
            | default => exact ⟨_, s, hlookup, rfl, rfl, rfl, rfl⟩
            | prod cs =>
                rintro sent ⟨st₄, made₄⟩ ⟨hsend, hmade⟩
                dsimp only at hsend hmade
                subst hmade
                cases hsend with
                | send receiver =>
                    have hopen := @sendAnswer_of_open st.analyticsChan
                    cases hanswer : Wiring.sendAnswer (st.analyticsChan.trySend receiver
                        ⟨code, clientIP, now.instant⟩) with
                    | ok u =>
                        exact ⟨_, s, hlookup, rfl, rfl, fun _ => ⟨rfl, _, rfl, rfl⟩⟩
                    -- The channel is closed: not while the server runs.
                    | error p =>
                        refine ⟨_, s, hlookup, rfl, rfl, fun hclosed => ?_⟩
                        rw [hopen hclosed] at hanswer
                        cases hanswer
      · exact ⟨_, s, hlookup, rfl, rfl, rfl⟩
      · exact ⟨_, s, hlookup, rfl, rfl, rfl⟩

/-! ## The outcomes -/

/-- The handler answered with this status. -/
def AnsweredWith (o : Except Panic RedirectResponse) (status : ℕ) : Prop :=
  ∃ response, o = .ok response ∧ response.status = status

/-- A run whose lookup answered `r` ends as it should: without a panic, with the status
that stands for the answer, and counted and tracked exactly on a redirect. -/
structure Outcome (w : Wiring) (code : String) (r : Option LookupResult × Option StoreError)
    (st : w.Server) (o : Except Panic RedirectResponse) (st' : w.Server) : Prop where
  completes : ∃ response, o = .ok response
  found : AnsweredWith o 302 ↔ r.2 = none ∧ ∃ val, r.1 = some val
  expired : AnsweredWith o 410 ↔ r.2 = some .errExpired
  absent : AnsweredWith o 404 ↔ r = (none, none)
  failed : AnsweredWith o 500 ↔ ∃ msg, r.2 = some (.database msg)
  counted : AnsweredWith o 302 → st'.totalRedirects = st.totalRedirects + 1
  uncounted : ¬ AnsweredWith o 302 → st'.totalRedirects = st.totalRedirects
  tracked : AnsweredWith o 302 → w.tracker = .tracker →
    ∃ event, event.code = code ∧ st'.offered = st.offered ++ [event]
  untracked : ¬ (AnsweredWith o 302 ∧ w.tracker = .tracker) → st'.offered = st.offered

@[simp] theorem answeredWith_ok {response : RedirectResponse} {status : ℕ} :
    AnsweredWith (.ok response) status ↔ response.status = status := by
  constructor
  · rintro ⟨_, ⟨⟩, h⟩
    exact h
  · exact fun h => ⟨response, rfl, h⟩

/-- Where the wiring does as it should: in the default one, where no link is found. -/
def Wiring.Sound (code : String) : (w : Wiring) → w.State → Prop
  | prod _, _ => True
  | default, s => (Store.memory s.data).slot s.now code ≠ .live

/-- A run that ends as the handler's runs do is as it should be, unless it finds a link
for a nil tracker. -/
theorem outcome_iff {s : w.State} {r : Option LookupResult × Option StoreError}
    {o : Except Panic RedirectResponse} (hrunning : w.tracker = .tracker →
      st.analyticsChan.closed = false) (h : Handled w st code s o st' r) :
    Outcome w code r st o st' ↔ (w.tracker = .nil → ∀ val, r ≠ (some val, none)) := by
  rcases r with ⟨val, _ | _ | msg⟩
  · cases val with
    | none =>
        obtain ⟨rfl, rfl⟩ := h
        refine ⟨fun _ _ val hval => (by cases hval), fun _ => ?_⟩
        constructor <;> simp [RedirectResponse.status]
    | some val =>
        obtain ⟨hcount, hend⟩ := h
        cases htracker : w.tracker with
        -- The handler panics on the nil tracker, and no outcome allows a panic.
        | nil =>
            rw [htracker] at hend
            refine ⟨fun hout => ?_, fun hnone => absurd rfl (hnone rfl val)⟩
            obtain ⟨response, hresponse⟩ := hout.completes
            rw [hend.1] at hresponse
            cases hresponse
        | tracker =>
            rw [htracker] at hend
            obtain ⟨rfl, hevent⟩ := hend (hrunning htracker)
            refine ⟨fun _ hnil => (by cases hnil), fun _ => ?_⟩
            constructor <;> simp [RedirectResponse.status, hcount, hevent, htracker]
  · obtain ⟨rfl, rfl⟩ := h
    refine ⟨fun _ _ val hval => (by cases hval), fun _ => ?_⟩
    constructor <;> simp [RedirectResponse.status]
  · obtain ⟨rfl, rfl⟩ := h
    refine ⟨fun _ _ val hval => (by cases hval), fun _ => ?_⟩
    constructor <;> simp [RedirectResponse.status]

/-- **The outcomes are as they should be in production always, and otherwise exactly where
no link is found.** The statement is for every result of the lookup and every run, and
covers the status, the redirect, the counter and the click event. -/
theorem redirect_outcomes_iff (hcode : code ≠ "")
    (hrunning : w.tracker = .tracker → st.analyticsChan.closed = false)
    {o : Except Panic RedirectResponse} {made : List (Prog.Made RedirectCall RedirectAnswer)}
    (h : (App.redirectHandler w.appTracker code clientIP).Ends (Prog.logged w.Serves) (st, []) o
      (st', made)) :
    (∃ r, lookups made = [r] ∧ Outcome w code r st o st') ↔ w.Sound code st.store := by
  obtain ⟨r, s, hlookup, hmade, hhandled⟩ :=
    Prog.always_iff.mp (redirectHandler_always hcode st) _ _ h
  have honly : (∃ r', lookups made = [r'] ∧ Outcome w code r' st o st') ↔
      Outcome w code r st o st' := by
    have hmade : lookups made = [r] := hmade
    rw [hmade]
    simp
  rw [honly, outcome_iff hrunning hhandled]
  cases w with
  | prod cs => exact ⟨fun _ => trivial, fun _ hnil => by cases hnil⟩
  | default =>
      obtain ⟨rfl, -⟩ := hlookup
      have hfound := Store.found_iff (.memory st.store.data) st.store.now code
      rw [Wiring.Sound, Ne, ← hfound, not_exists]
      exact ⟨fun hnone => hnone rfl, fun hnone _ => hnone⟩

end

/-! ### The same link in the two wirings -/

namespace Wiring

/-- The calls when nothing fails and no worker waits. -/
def serve (w : Wiring) : (c : RedirectCall) → Server w → RedirectAnswer c × Server w
  | .lookup code, st =>
    match w, st with
    | prod cs, st =>
      ((Method.alone (cs.lookup code) st.store).1,
        { st with store := (Method.alone (cs.lookup code) st.store).2 })
    | default, st => (st.store.data.lookup st.store.now code, st)
  | .totalRedirectsAdd, st => ((), { st with totalRedirects := st.totalRedirects + 1 })
  | .timeNow, st => (.zero, st)
  | .send event, st =>
    (sendAnswer (st.analyticsChan.trySend false event),
      { st with
        analyticsChan := sendChan st.analyticsChan (st.analyticsChan.trySend false event)
        offered := st.offered ++ [event] })

theorem serves_serve (w : Wiring) (c : RedirectCall) (st : Server w) :
    w.Serves st c (w.serve c st).1 (w.serve c st).2 := by
  cases c with
  | lookup code =>
      cases w with
      | prod cs => exact .lookup (Method.ends_alone _ _)
      | default => exact .lookup ⟨rfl, rfl⟩
  | totalRedirectsAdd => exact .totalRedirectsAdd
  | timeNow => exact .timeNow _
  | send event => exact .send false

end Wiring

/-- A row for `https://example.com`, which does not expire. -/
def oneRow : Env := Env.empty.insert "aZ3kQ9x" "https://example.com" (.ofOption none)

/-- In production, with a tracker that has just been started. -/
def inProduction : (Wiring.prod plainCache).Server := ⟨oneRow, 0, .make 1000, []⟩

/-- The same link in memory. -/
def inDevelopment : Wiring.default.Server :=
  ⟨⟨(MemoryStore.save (fun _ => none) "aZ3kQ9x" "https://example.com" none).1, .zero⟩, 0,
    .make 0, []⟩

/-- One redirect, as it runs in each. -/
def redirected (w : Wiring) (st : w.Server) :
    Except Panic RedirectResponse × w.Server × List (Prog.Made RedirectCall RedirectAnswer) :=
  (App.redirectHandler w.appTracker "aZ3kQ9x" "192.0.2.1").run (Prog.logging w.serve) (st, [])

/-- In production a link is found, counted, offered to the tracker and answered with a
redirect. -/
theorem redirect_outcomes_iff_example :
    ∃ r, lookups (redirected (.prod plainCache) inProduction).2.2 = [r] ∧
      Outcome (.prod plainCache) "aZ3kQ9x" r inProduction
        (redirected (.prod plainCache) inProduction).1
        (redirected (.prod plainCache) inProduction).2.1 := by
  have hends := Prog.ends_logging (Wiring.serves_serve (.prod plainCache))
    (App.redirectHandler (Wiring.prod plainCache).appTracker "aZ3kQ9x" "192.0.2.1")
    (inProduction, [])
  exact (redirect_outcomes_iff (by decide) (fun _ => rfl) hends).mpr trivial

/-- **Without `ENV=PROD` a redirect panics**, after it was counted and before it was
answered, although the link was found and the handler asks whether its tracker is nil. -/
theorem redirect_panics :
    (App.redirectHandler Wiring.default.appTracker "aZ3kQ9x" "192.0.2.1").Ends
        (Prog.logged Wiring.default.Serves) (inDevelopment, [])
        (redirected .default inDevelopment).1 (redirected .default inDevelopment).2 ∧
      (redirected .default inDevelopment).1 = .error .nilDereference ∧
      (redirected .default inDevelopment).2.1.totalRedirects = 1 ∧
      ∀ r, ¬ Outcome .default "aZ3kQ9x" r inDevelopment (redirected .default inDevelopment).1
        (redirected .default inDevelopment).2.1 := by
  refine ⟨Prog.ends_logging (Wiring.serves_serve .default) _ (inDevelopment, []), rfl, rfl, ?_⟩
  intro r hout
  obtain ⟨response, hresponse⟩ := hout.completes
  cases hresponse

end EngineeringLab.Shortener
