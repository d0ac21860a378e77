/-
`EventBus.publish` when something fails.

Two awaited calls can throw for each subscriber. The handler's is inside a `try`: what it
throws is logged and the loop goes on. The flag lookup's is not: what it throws leaves the
loop and `publish`, so the later subscribers hear nothing, and `TransactionsService.create`,
which awaits `publish` after its insert, reports a failure for a transaction that is stored
(`stored_but_failed`). When no lookup throws, everything is as it should be, and only then
(`publishing_isolated_iff`).

Both are first written over larger calls (a lookup, a handler), which may then answer
anything; `publish_eq` and `create_eq` put the programs in the place of these calls.

The larger calls are what makes the condition sayable: a lookup that throws is one call with
an error for an answer, and whether there is one can be read off the list of calls.
Publishing isolates failures if the list consists of the right calls for each subscriber in
turn (`Isolated`). Both halves are stated of the larger calls first and then of
`EventBus.publish` and `TransactionsService.create` as they run on the database.
-/
import EngineeringLab.Concurrency.Interpret
import EngineeringLab.FinanceTracker.Services

set_option autoImplicit false

open Concurrency

namespace EngineeringLab.FinanceTracker

/-! ## Over larger calls -/

/-- What `create` and `publish` await: a Prisma call, the flag service, or the handler of
the `i`-th subscriber. -/
inductive BusCall where
  | prisma (c : Call)
  | isModuleEnabled (householdId : ℤ) (moduleName : String)
  | handler (i : ℕ) (event : DomainEvent)

abbrev BusAnswer : BusCall → Type
  | .prisma c => Answer c
  | .isModuleEnabled .. => Except ServiceError Bool
  | .handler .. => Except ServiceError Unit

abbrev BusProgram (α : Type) : Type := Prog BusCall BusAnswer ServiceError α

/-- A call that was made, with its answer. -/
abbrev BusMade : Type := Prog.Made BusCall BusAnswer

/-- `EventBus.deliver` over larger calls, for a subscriber and its place in the list. -/
def EventBus.deliverCalls (event : DomainEvent) (subscriber : EventSubscription × ℕ) :
    BusProgram Unit := do
  let enabled ← match subscriber.1.moduleName with
    | none => pure true
    | some moduleName =>
      if moduleName = "" then pure true
      else .call (.isModuleEnabled event.householdId moduleName) .ofExcept
  if enabled then
    .call (.handler subscriber.2 event) fun r => (Prog.ofExcept r).tryCatch fun _ => return ()
  else return ()

/-- The subscribers of the event's name. -/
def EventBus.subscribers (bus : EventBus) (name : String) : List EventSubscription :=
  (bus.filter (·.1 = name)).map (·.2)

/-- `EventBus.publish` over larger calls. -/
def EventBus.publishCalls (subscribers : List EventSubscription) (event : DomainEvent) :
    BusProgram Unit := do
  let _ ← Prog.each subscribers.zipIdx (EventBus.deliverCalls event)

/-- A program of Prisma calls. -/
def prismaCalls {α : Type} (p : Service α) : BusProgram α :=
  p.interpret fun c => .call (.prisma c) .ret

/-- `TransactionsService.create` over larger calls. -/
def TransactionsService.createCalls (rt : Runtime) (bus : EventBus) (householdId : ℤ) (data : Js) :
    BusProgram Row := do
  let accountId := rt.text (data.get "accountId")
  match ← prismaCalls (AccountsService.findOne householdId (data.get "accountId")) with
  | none =>
    .throw (.notFoundException s!"Account {accountId} not found in this household")
  | some _ => do
    let transaction ← prismaCalls (FinanceTracker.create .transaction (.obj [
      ("amount", data.get "amount"),
      ("description", data.get "description"),
      ("date", .date (rt.newDate (data.get "date"))),
      ("householdId", .int householdId),
      ("accountId", data.get "accountId"),
      ("categoryId", data.get "categoryId")]))
    EventBus.publishCalls (bus.subscribers transactionCreated) ⟨transactionCreated,
      transaction .id, householdId, transaction .accountId, transaction .categoryId,
      rt.numberOf (transaction .amount)⟩
    return transaction

/-! ## They are the service's programs -/

/-- What the larger calls stand for, with these subscribers. -/
def busProgram (subscribers : List EventSubscription) : (c : BusCall) → Service (BusAnswer c)
  | .prisma c => .call c .ret
  | .isModuleEnabled householdId moduleName => (isModuleEnabled householdId moduleName).attempt
  | .handler i event => match subscribers[i]? with
    | some subscriber => (subscriber.handler event).attempt
    | none => .ret (.ok ())

theorem interpret_ofExcept {subscribers : List EventSubscription} {α : Type}
    (r : Except ServiceError α) :
    (Prog.ofExcept r : BusProgram α).interpret (busProgram subscribers) = .ofExcept r := by
  cases r <;> rfl

theorem interpret_prismaCalls {subscribers : List EventSubscription} {α : Type} (p : Service α) :
    (prismaCalls p).interpret (busProgram subscribers) = p := by
  unfold prismaCalls
  induction p with
  | ret a => rfl
  | throw e => rfl
  | call c k ih => exact congrArg (Prog.call c) (funext ih)

/-- Awaiting the handler inside the `try`. -/
theorem handler_eq {subscribers : List EventSubscription} {subscriber : EventSubscription × ℕ}
    (h : subscribers[subscriber.2]? = some subscriber.1) (event : DomainEvent) :
    (Prog.call (.handler subscriber.2 event) fun r =>
        (Prog.ofExcept r).tryCatch fun _ => .ret () : BusProgram Unit).interpret
      (busProgram subscribers) = (subscriber.1.handler event).tryCatch fun _ => .ret () := by
  rw [← Prog.attempt_tryCatch]
  simp only [Prog.interpret, busProgram, h]
  congr
  funext r
  cases r <;> rfl

theorem deliver_eq {subscribers : List EventSubscription} {subscriber : EventSubscription × ℕ}
    (h : subscribers[subscriber.2]? = some subscriber.1) (event : DomainEvent) :
    (EventBus.deliverCalls event subscriber).interpret (busProgram subscribers) =
      EventBus.deliver event subscriber.1 := by
  unfold EventBus.deliverCalls EventBus.deliver
  cases subscriber.1.moduleName with
  | none => exact handler_eq h event
  | some moduleName =>
      by_cases hempty : moduleName = ""
      · simp only [hempty, if_true]
        exact handler_eq h event
      · simp only [hempty, if_false]
        rw [Prog.interpret_bind]
        have hask : (Prog.call (.isModuleEnabled event.householdId moduleName) Prog.ofExcept :
            BusProgram Bool).interpret (busProgram subscribers) =
              isModuleEnabled event.householdId moduleName := by
          refine Eq.trans ?_ (Prog.attempt_ofExcept _)
          exact congrArg _ (funext fun r => interpret_ofExcept r)
        rw [hask]
        congr
        funext enabled
        cases enabled with
        | false => rfl
        | true => exact handler_eq h event

theorem publish_eq (bus : EventBus) (event : DomainEvent) :
    (EventBus.publishCalls (bus.subscribers event.name) event).interpret
      (busProgram (bus.subscribers event.name)) = bus.publish event := by
  unfold EventBus.publishCalls EventBus.publish
  rw [Prog.interpret_bind, Prog.interpret_each]
  have heach : Prog.each (bus.subscribers event.name).zipIdx (fun s =>
      (EventBus.deliverCalls event s).interpret (busProgram (bus.subscribers event.name))) =
        Prog.each (bus.subscribers event.name) (EventBus.deliver event) := by
    rw [Prog.each_congr fun s hs => deliver_eq (List.mem_zipIdx_iff_getElem?.mp hs) event,
      ← Prog.each_map Prod.fst, List.zipIdx_map_fst]
  rw [heach]
  rfl

theorem create_eq (rt : Runtime) (bus : EventBus) (householdId : ℤ) (data : Js) :
    (TransactionsService.createCalls rt bus householdId data).interpret
      (busProgram (bus.subscribers transactionCreated)) =
        TransactionsService.create rt bus householdId data := by
  unfold TransactionsService.createCalls TransactionsService.create
  rw [Prog.interpret_bind, interpret_prismaCalls]
  congr
  funext account
  cases account with
  | none => rfl
  | some account =>
      dsimp only
      rw [Prog.interpret_bind, interpret_prismaCalls]
      congr
      funext transaction
      have hpublish := publish_eq bus ⟨transactionCreated, transaction .id, householdId,
        transaction .accountId, transaction .categoryId, rt.numberOf (transaction .amount)⟩
      rw [Prog.interpret_bind, hpublish]
      rfl

/-! A larger call is a run of the service's program, so every run of the service is one over
larger calls. -/

section

variable {rt : Runtime} {subscribers : List EventSubscription} {db db' : Db}

/-- What a larger call may answer and do. -/
def busExec (rt : Runtime) (subscribers : List EventSubscription) (db : Db) (c : BusCall)
    (r : BusAnswer c) (db' : Db) : Prop :=
  (busProgram subscribers c).Ends rt.Exec db (.ok r) db'

theorem busProgram_returns (c : BusCall) (db : Db) (x : ServiceError) (db' : Db) :
    ¬ (busProgram subscribers c).Ends rt.Exec db (.error x) db' := by
  intro h
  cases c with
  | prisma c =>
      obtain ⟨r, s', -, hret⟩ := Prog.ends_call.mp h
      cases hret
  | isModuleEnabled householdId moduleName =>
      obtain ⟨r, hr, -⟩ := Prog.ends_attempt.mp h
      cases hr
  | handler i event =>
      simp only [busProgram] at h
      split at h
      · obtain ⟨r, hr, -⟩ := Prog.ends_attempt.mp h
        cases hr
      · cases h

theorem publish_ends_iff {bus : EventBus} {event : DomainEvent} {o : Except ServiceError Unit} :
    (bus.publish event).Ends rt.Exec db o db' ↔
      ∃ made, (EventBus.publishCalls (bus.subscribers event.name) event).Ends
        (Prog.logged (busExec rt (bus.subscribers event.name))) (db, []) o (db', made) := by
  rw [← publish_eq, Prog.ends_interpret busProgram_returns]
  exact Prog.ends_logged []

theorem create_ends_iff {bus : EventBus} {householdId : ℤ} {data : Js}
    {o : Except ServiceError Row} :
    (TransactionsService.create rt bus householdId data).Ends rt.Exec db o db' ↔
      ∃ made, (TransactionsService.createCalls rt bus householdId data).Ends
        (Prog.logged (busExec rt (bus.subscribers transactionCreated))) (db, []) o (db', made) := by
  rw [← create_eq, Prog.ends_interpret busProgram_returns]
  exact Prog.ends_logged []

end

/-! ## What publishing should do -/

/-- The calls made for the `i`-th subscriber: its handler, once, if it has no module or the
lookup says that the module is enabled; else the lookup alone. -/
inductive Delivered (event : DomainEvent) (i : ℕ) : Option String → List BusMade → Prop
  | core (r : Except ServiceError Unit) : Delivered event i none [⟨.handler i event, r⟩]
  | unnamed (r : Except ServiceError Unit) : Delivered event i (some "") [⟨.handler i event, r⟩]
  | enabled {moduleName : String} (hm : moduleName ≠ "") (r : Except ServiceError Unit) :
      Delivered event i (some moduleName)
        [⟨.isModuleEnabled event.householdId moduleName, .ok true⟩, ⟨.handler i event, r⟩]
  | disabled {moduleName : String} (hm : moduleName ≠ "") :
      Delivered event i (some moduleName)
        [⟨.isModuleEnabled event.householdId moduleName, .ok false⟩]
  | failed {moduleName : String} (hm : moduleName ≠ "") (x : ServiceError) :
      Delivered event i (some moduleName)
        [⟨.isModuleEnabled event.householdId moduleName, .error x⟩]

/-- Publishing resolves, and its calls are those for each subscriber, one after the other. -/
structure Isolated (subscribers : List EventSubscription) (event : DomainEvent)
    (made : List BusMade) (o : Except ServiceError Unit) : Prop where
  resolves : o = .ok ()
  delivered : ∃ parts : List (List BusMade), made = parts.flatten ∧
    List.Forall₂ (fun s part => Delivered event s.2 s.1.moduleName part) subscribers.zipIdx parts

/-- One of the flag lookups threw. -/
def LookupThrows (made : List BusMade) : Prop :=
  ∃ householdId moduleName x, ⟨.isModuleEnabled householdId moduleName, .error x⟩ ∈ made

/-! ## What it does -/

section

variable {σ : Type} {exec : σ → (c : BusCall) → BusAnswer c → σ → Prop} {event : DomainEvent}

theorem lookupThrows_append {made made' : List BusMade} :
    LookupThrows (made ++ made') ↔ LookupThrows made ∨ LookupThrows made' := by
  simp only [LookupThrows, List.mem_append, exists_or]

/-- The handler is called once, and whatever it throws is caught. -/
theorem handler_always (i : ℕ) (st : σ × List BusMade) :
    (Prog.call (.handler i event) fun r =>
        (Prog.ofExcept r).tryCatch fun _ => .ret () : BusProgram Unit).Always (Prog.logged exec) st
      fun o st' => o = .ok () ∧ ∃ r, st'.2 = st.2 ++ [⟨.handler i event, r⟩] := by
  intro r st' hcall
  cases r with
  | ok _ => exact ⟨rfl, _, hcall.2⟩
  | error x => exact ⟨rfl, _, hcall.2⟩

/-- The calls for one subscriber: as they should be, or a lookup that throws. -/
def DeliverSpec (event : DomainEvent) (subscriber : EventSubscription × ℕ) (made : List BusMade)
    (o : Except ServiceError Unit) (made' : List BusMade) : Prop :=
  ∃ part, made' = made ++ part ∧
    ((o = .ok () ∧ ¬ LookupThrows part ∧
        Delivered event subscriber.2 subscriber.1.moduleName part) ∨
      (∃ x, o = .error x) ∧ LookupThrows part)

theorem deliver_always (subscriber : EventSubscription × ℕ) (st : σ × List BusMade) :
    (EventBus.deliverCalls event subscriber).Always (Prog.logged exec) st fun o st' =>
      DeliverSpec event subscriber st.2 o st'.2 := by
  unfold EventBus.deliverCalls DeliverSpec
  cases subscriber.1.moduleName with
  | none =>
      refine (handler_always subscriber.2 st).mono fun o st' ⟨ho, r, hlog⟩ => ?_
      exact ⟨_, hlog, .inl ⟨ho, by simp [LookupThrows], .core r⟩⟩
  | some moduleName =>
      by_cases hempty : moduleName = ""
      · subst hempty
        refine (handler_always subscriber.2 st).mono fun o st' ⟨ho, r, hlog⟩ => ?_
        exact ⟨_, hlog, .inl ⟨ho, by simp [LookupThrows], .unnamed r⟩⟩
      · simp only [hempty, if_false]
        intro answer st₁ hask
        cases answer with
        | error x => exact ⟨_, hask.2, .inr ⟨⟨x, rfl⟩, _, _, x, List.mem_cons_self⟩⟩
        | ok enabled =>
            cases enabled with
            | false => exact ⟨_, hask.2, .inl ⟨rfl, by simp [LookupThrows], .disabled hempty⟩⟩
            | true =>
                refine (handler_always subscriber.2 st₁).mono fun o st' ⟨ho, r, hlog⟩ => ?_
                rw [hask.2, List.append_assoc] at hlog
                exact ⟨_, hlog, .inl ⟨ho, by simp [LookupThrows], .enabled hempty r⟩⟩

/-- The calls for all of them: up to the first lookup that throws. The induction is on the
subscribers, and what a handler throws does not end it. -/
theorem deliverAll_always (subscribers : List (EventSubscription × ℕ)) (st : σ × List BusMade) :
    (Prog.each subscribers (EventBus.deliverCalls event)).Always (Prog.logged exec) st fun o st' =>
      ∃ made, st'.2 = st.2 ++ made ∧
        (((∃ l, o = .ok l) ∧ ¬ LookupThrows made ∧ ∃ parts : List (List BusMade),
            made = parts.flatten ∧
            List.Forall₂ (fun s part => Delivered event s.2 s.1.moduleName part) subscribers
              parts) ∨
          (∃ x, o = .error x) ∧ LookupThrows made) := by
  -- the subscribers in turn, until a lookup throws
  induction subscribers generalizing st with
  | nil =>
      exact ⟨[], (List.append_nil _).symm, .inl ⟨⟨_, rfl⟩, by simp [LookupThrows], [], rfl, .nil⟩⟩
  | cons subscriber subscribers ih =>
      refine Prog.Always.bind ((deliver_always subscriber st).mono fun o st₁ hfirst => ?_)
      obtain ⟨part, hpart, ⟨rfl, hnone, hdelivered⟩ | ⟨⟨x, rfl⟩, hthrows⟩⟩ := hfirst
      · refine Prog.Always.bind ((ih st₁).mono fun o st₂ hrest => ?_)
        obtain ⟨made, hmade, hrest⟩ := hrest
        rw [hpart, List.append_assoc] at hmade
        rcases hrest with ⟨⟨l, rfl⟩, hnone', parts, rfl, hparts⟩ | ⟨⟨x, rfl⟩, hthrows⟩
        · refine ⟨_, hmade, .inl ⟨⟨_, rfl⟩, ?_, part :: parts, rfl, .cons hdelivered hparts⟩⟩
          rw [lookupThrows_append]
          exact not_or.mpr ⟨hnone, hnone'⟩
        · exact ⟨_, hmade, .inr ⟨⟨x, rfl⟩, lookupThrows_append.mpr (.inr hthrows)⟩⟩
      · exact ⟨part, hpart, .inr ⟨⟨x, rfl⟩, hthrows⟩⟩

/-- `publish` isolates the subscribers, or a lookup throws and with it `publish`. -/
theorem publish_always (subscribers : List EventSubscription) (st : σ × List BusMade) :
    (EventBus.publishCalls subscribers event).Always (Prog.logged exec) st fun o st' =>
      ∃ made, st'.2 = st.2 ++ made ∧
        ((Isolated subscribers event made o ∧ ¬ LookupThrows made) ∨
          (∃ x, o = .error x) ∧ LookupThrows made) := by
  refine Prog.Always.bind ((deliverAll_always subscribers.zipIdx st).mono fun o st' hall => ?_)
  obtain ⟨made, hmade, ⟨⟨l, rfl⟩, hnone, hparts⟩ | ⟨⟨x, rfl⟩, hthrows⟩⟩ := hall
  · exact ⟨made, hmade, .inl ⟨⟨rfl, hparts⟩, hnone⟩⟩
  · exact ⟨made, hmade, .inr ⟨⟨x, rfl⟩, hthrows⟩⟩

/-- Publishing makes no Prisma call of its own. -/
theorem publish_obeys (subscribers : List EventSubscription) :
    (EventBus.publishCalls subscribers event).Obeys (fun c => ∀ c', c ≠ .prisma c')
      fun _ => True := by
  have hhandler : ∀ i, (Prog.call (.handler i event) fun r =>
      (Prog.ofExcept r).tryCatch fun _ => .ret () : BusProgram Unit).Obeys
        (fun c => ∀ c', c ≠ .prisma c') fun _ => True := by
    intro i
    refine ⟨fun c' hc => (by cases hc), fun r => ?_⟩
    cases r <;> trivial
  refine Prog.Obeys.bind (Q := fun _ => True) (Prog.Obeys.mono
    (Prog.Obeys.each (Q := fun _ _ => True) fun s _ => ?_) fun _ _ => trivial) fun _ _ => trivial
  unfold EventBus.deliverCalls
  cases s.1.moduleName with
  | none => exact hhandler s.2
  | some moduleName =>
      by_cases hempty : moduleName = ""
      · simp only [hempty, if_true]
        exact hhandler s.2
      · simp only [hempty, if_false]
        refine ⟨fun c' hc => (by cases hc), fun r => ?_⟩
        cases r with
        | error x => trivial
        | ok enabled =>
            cases enabled with
            | false => trivial
            | true => exact hhandler s.2

/-- After an insert that answered with `transaction`, before which no lookup threw: `create`
resolves with it, or a lookup throws and with it `create`. -/
theorem inserted_publish_always {event : DomainEvent} {subscribers : List EventSubscription}
    {transaction : Row} {st : σ × List ((c : BusCall) × BusAnswer c)}
    (hbefore : ¬ LookupThrows st.2)
    (hrow : ∀ d row, ⟨.prisma (.create .transaction d), .ok row⟩ ∈ st.2 → row = transaction) :
    (EventBus.publishCalls subscribers event >>= fun _ => Prog.ret transaction).Always
      (Prog.logged exec) st
      fun o st' => ∀ d row, ⟨.prisma (.create .transaction d), .ok row⟩ ∈ st'.2 →
        (o = .ok row ∧ ¬ LookupThrows st'.2) ∨ (∃ x, o = .error x) ∧ LookupThrows st'.2 := by
  have hpublish := (@publish_always _ exec event subscribers st).and ((publish_obeys _).logged st)
  refine Prog.Always.bind (hpublish.mono fun o st' ⟨hspec, own, hown, hcalls⟩ => ?_)
  obtain ⟨made, hmade, hspec⟩ := hspec
  rcases hspec with ⟨⟨rfl, -⟩, hnone⟩ | ⟨⟨x, rfl⟩, hthrows⟩
  · intro d row hmem
    refine .inl ⟨?_, ?_⟩
    · -- publishing inserts nothing
      rw [hown] at hmem
      rcases List.mem_append.mp hmem with hmem | hmem
      · rw [hrow d row hmem]
      · exact absurd rfl (hcalls _ hmem _)
    · rw [hmade, lookupThrows_append]
      exact not_or.mpr ⟨hbefore, hnone⟩
  · intro d row _
    refine .inr ⟨⟨x, rfl⟩, ?_⟩
    rw [hmade, lookupThrows_append]
    exact .inr hthrows

/-- Once the insert has answered with a row, `create` resolves with it, or a lookup throws
and with it `create`. -/
theorem createCalls_always (rt : Runtime) (bus : EventBus) (householdId : ℤ) (data : Js) (s : σ) :
    (TransactionsService.createCalls rt bus householdId data).Always (Prog.logged exec) (s, [])
      fun o st' => ∀ d row, ⟨.prisma (.create .transaction d), .ok row⟩ ∈ st'.2 →
        (o = .ok row ∧ ¬ LookupThrows st'.2) ∨ (∃ x, o = .error x) ∧ LookupThrows st'.2 := by
  unfold TransactionsService.createCalls prismaCalls
  intro account st₁ hfind
  cases account with
  | error x =>
      intro d row hmem
      rw [hfind.2] at hmem
      simp at hmem
  | ok account =>
      cases account with
      | none =>
          intro d row hmem
          rw [hfind.2] at hmem
          simp at hmem
      | some account =>
          intro inserted st₂ hinsert
          cases inserted with
          | error x =>
              intro d row hmem
              rw [hinsert.2, hfind.2] at hmem
              simp at hmem
          | ok transaction =>
              -- before it: the lookup of the account and the insert, which threw nothing
              refine inserted_publish_always ?_ fun d row hmem => ?_
              · rw [hinsert.2, hfind.2]
                simp [LookupThrows]
              · rw [hinsert.2, hfind.2] at hmem
                simp at hmem
                exact hmem.2

/-- A run of `publish` isolates the subscribers exactly when no lookup of it throws. -/
theorem isolated_iff_of_ends {subscribers : List EventSubscription} {s s' : σ}
    {o : Except ServiceError Unit} {made : List BusMade}
    (hends : (EventBus.publishCalls subscribers event).Ends (Prog.logged exec) (s, []) o
      (s', made)) :
    Isolated subscribers event made o ↔ ¬ LookupThrows made := by
  obtain ⟨made', rfl, hspec⟩ := Prog.always_iff.mp (publish_always subscribers (s, [])) _ _ hends
  rcases hspec with ⟨hisolated, hnone⟩ | ⟨⟨x, rfl⟩, hthrows⟩
  · exact ⟨fun _ => hnone, fun _ => hisolated⟩
  · refine ⟨fun hisolated => ?_, fun hnone => absurd hthrows hnone⟩
    cases hisolated.resolves

/-- A run of `create` whose insert answered with a row resolves with it exactly then. -/
theorem resolves_iff_of_ends {rt : Runtime} {bus : EventBus} {householdId : ℤ} {data : Js}
    {s s' : σ} {o : Except ServiceError Row} {made : List BusMade}
    (hends : (TransactionsService.createCalls rt bus householdId data).Ends (Prog.logged exec)
      (s, []) o (s', made)) {d : Js} {row : Row}
    (hmem : ⟨.prisma (.create .transaction d), .ok row⟩ ∈ made) :
    o = .ok row ↔ ¬ LookupThrows made := by
  have hspec := Prog.always_iff.mp (createCalls_always rt bus householdId data s) _ _ hends
  rcases hspec d row hmem with ⟨rfl, hnone⟩ | ⟨⟨x, rfl⟩, hthrows⟩
  · exact ⟨fun _ => hnone, fun _ => rfl⟩
  · refine ⟨fun hok => ?_, fun hnone => absurd hthrows hnone⟩
    cases hok

/-- **Publishing isolates failures exactly when no flag lookup throws**, whatever the calls
answer and do; and once its insert has answered with a row, `create` resolves with that row
exactly then. So do `EventBus.publish` and `TransactionsService.create` over the database: each
of their runs is one of these, with the same end. -/
theorem publishing_isolated_iff :
    (∀ subscribers event s o s' made,
      (EventBus.publishCalls subscribers event).Ends (Prog.logged exec) (s, []) o (s', made) →
        (Isolated subscribers event made o ↔ ¬ LookupThrows made)) ∧
      (∀ rt bus householdId data s o s' made,
        (TransactionsService.createCalls rt bus householdId data).Ends (Prog.logged exec) (s, []) o
          (s', made) →
        ∀ d row, ⟨.prisma (.create .transaction d), .ok row⟩ ∈ made →
          (o = .ok row ↔ ¬ LookupThrows made)) ∧
      (∀ (rt : Runtime) (bus : EventBus) event db o db', (bus.publish event).Ends rt.Exec db o db' →
        ∃ made, (EventBus.publishCalls (bus.subscribers event.name) event).Ends
            (Prog.logged (busExec rt (bus.subscribers event.name))) (db, []) o (db', made) ∧
          (Isolated (bus.subscribers event.name) event made o ↔ ¬ LookupThrows made)) ∧
      ∀ rt bus householdId data db o db',
        (TransactionsService.create rt bus householdId data).Ends rt.Exec db o db' →
        ∃ made, (TransactionsService.createCalls rt bus householdId data).Ends
            (Prog.logged (busExec rt (bus.subscribers transactionCreated))) (db, []) o
            (db', made) ∧
          ∀ d row, ⟨.prisma (.create .transaction d), .ok row⟩ ∈ made →
            (o = .ok row ↔ ¬ LookupThrows made) := by
  refine ⟨fun _ _ _ _ _ _ hends => isolated_iff_of_ends hends,
    fun _ _ _ _ _ _ _ _ hends _ _ hmem => resolves_iff_of_ends hends hmem, ?_, ?_⟩
  · -- the services over the database run the same calls, with the same end
    intro rt bus event db o db' hends
    obtain ⟨made, hmade⟩ := publish_ends_iff.mp hends
    exact ⟨made, hmade, isolated_iff_of_ends hmade⟩
  · intro rt bus householdId data db o db' hends
    obtain ⟨made, hmade⟩ := create_ends_iff.mp hends
    exact ⟨made, hmade, fun d row hmem => resolves_iff_of_ends hmade hmem⟩

end

/-! ### Three subscribers, and a lookup that fails -/

/-- A handler and its module, which is all that publishing looks at. -/
def subscription (moduleName : Option String) : EventSubscription :=
  ⟨moduleName, fun _ => .ret ()⟩

def threeSubscribers : List EventSubscription :=
  [subscription none, subscription (some "budgets"), subscription (some "bank-sync")]

/-- Transaction 1 of household 1, on account 2. -/
def lunch : Row := .of [(.id, .int 1), (.amount, .decimal 12), (.description, .string "Lunch"),
  (.date, .dateTime 0), (.householdId, .int 1), (.accountId, .int 2)]

def lunchCreated : DomainEvent :=
  ⟨transactionCreated, .int 1, 1, .int 2, .null, 12⟩

/-- Every handler throws; only `budgets` is enabled, if the flags can be read. -/
def someAnswers (readable : Bool) : (c : BusCall) → Unit → BusAnswer c × Unit
  | .prisma (.findFirst ..), _ => (.ok (some ⟨lunch, []⟩), ())
  | .prisma (.findMany ..), _ => (.ok [], ())
  | .prisma (.create ..), _ => (.ok lunch, ())
  | .prisma (.update ..), _ => (.ok lunch, ())
  | .prisma (.updateMany ..), _ => (.ok 0, ())
  | .prisma (.delete ..), _ => (.ok lunch, ())
  | .prisma (.deleteMany ..), _ => (.ok 0, ())
  | .prisma (.fetchTransactions ..), _ => (.ok [], ())
  | .prisma .dateNow, _ => (0, ())
  | .isModuleEnabled _ moduleName, _ =>
    (if readable then .ok (moduleName = "budgets") else .error (.prisma .unavailable), ())
  | .handler .., _ => (.error (.adapter "handler failed"), ())

/-- How a program ends with these answers, and its calls. -/
def outcomeOf {α : Type} (readable : Bool) (p : BusProgram α) :
    Except ServiceError α × List BusMade :=
  let out := p.run (Prog.logging (someAnswers readable)) ((), [])
  (out.1, out.2.2)

theorem ends_outcomeOf {α : Type} (readable : Bool) (p : BusProgram α) :
    p.Ends (Prog.logged fun _ c r _ => r = (someAnswers readable c ()).1) ((), [])
      (outcomeOf readable p).1 ((), (outcomeOf readable p).2) :=
  Prog.ends_logging (fun _ _ => rfl) p ((), [])

/-- `create` with these answers. -/
def lunchOutcome : Except ServiceError Row × List BusMade :=
  outcomeOf true (TransactionsService.createCalls Runtime.closed budgetsBus 1 (.obj []))

/-- Three subscribers, whose handlers all throw, and flags that can be read: only the core
subscriber and the one of `budgets` are called, and `create` resolves with its row. -/
theorem publishing_isolated_iff_example :
    (Isolated threeSubscribers lunchCreated
        (outcomeOf true (EventBus.publishCalls threeSubscribers lunchCreated)).2
        (outcomeOf true (EventBus.publishCalls threeSubscribers lunchCreated)).1 ↔
      ¬ LookupThrows (outcomeOf true (EventBus.publishCalls threeSubscribers lunchCreated)).2) ∧
      (lunchOutcome.1 = .ok lunch ↔ ¬ LookupThrows lunchOutcome.2) :=
  ⟨publishing_isolated_iff.1 _ _ _ _ _ _ (ends_outcomeOf true _),
    publishing_isolated_iff.2.1 _ _ _ _ _ _ _ _ (ends_outcomeOf true _) _ _
      (List.mem_cons_of_mem _ List.mem_cons_self)⟩

/-- Each call answered, but for the flags, which cannot be read. -/
def flagsUnreachable (rt : Runtime) : (c : Call) → Db → Answer c × Db
  | .findFirst .featureFlag _ _, db => (.error .unavailable, db)
  | c, db => rt.answer c db

theorem exec_flagsUnreachable (rt : Runtime) (c : Call) (db : Db) :
    rt.Exec db c (flagsUnreachable rt c db).1 (flagsUnreachable rt c db).2 := by
  unfold flagsUnreachable
  split
  · exact .unreachable _ rfl
  · exact .answered _ _

/-- A purchase of household 1 from its first account. -/
def lunchData : Js :=
  .obj [("amount", .num 12), ("description", .str "Lunch"), ("date", .str "2026-05-01"),
    ("accountId", .int 1)]

/-- The outcome and the database after `create`, on the seed. -/
def lunchStored : Except ServiceError Row × Db :=
  (TransactionsService.create Runtime.mayFirst budgetsBus 1 lunchData).run
    (flagsUnreachable Runtime.mayFirst) seeded

/-- Publishing to the budgets module and to a core subscriber, when the flags cannot be read. -/
def unreadable : Except ServiceError Unit × List BusMade :=
  outcomeOf false
    (EventBus.publishCalls [subscription (some "budgets"), subscription none] lunchCreated)

/-- **A lookup that throws** keeps the core subscriber after it from hearing of the event, and
makes `create` fail for a transaction that it has stored. -/
theorem stored_but_failed :
    (unreadable.1 = .error (.prisma .unavailable) ∧
        unreadable.2 = [⟨.isModuleEnabled 1 "budgets", .error (.prisma .unavailable)⟩]) ∧
      (TransactionsService.create Runtime.mayFirst budgetsBus 1 lunchData).Ends
        Runtime.mayFirst.Exec seeded lunchStored.1 lunchStored.2 ∧
      lunchStored.1.toOption = none ∧ (lunchStored.2.rows .transaction).length = 1 :=
  ⟨⟨rfl, rfl⟩, Prog.Ends.of_run (fun c db => exec_flagsUnreachable _ c db) _ _, by decide +kernel,
    by decide +kernel⟩

end EngineeringLab.FinanceTracker
