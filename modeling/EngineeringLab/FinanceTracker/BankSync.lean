/-
Bank sync, run again.

`syncTransactions` asks the bank for its transactions and creates a row for each, one
create after another, without a transaction around them. The bank's own id of a
transaction goes into no column, so a later run cannot tell which of them are stored
already and creates them all over again.

What a run leaves is settled by one number, how many of its creates came through. They
are those of the first so many bank transactions, whichever call it was that failed
(`sync_always`), and a second run adds the whole list to them (`sync_again`).

Every create is a call by itself and may fail by itself. A failure ends the run with the
exception, and the rows that are already there stay. A run that succeeds has created one row
for every transaction, with the values that the adapter gave.
-/
import EngineeringLab.Concurrency.Interpret
import EngineeringLab.FinanceTracker.Operations

set_option autoImplicit false

open Concurrency

namespace EngineeringLab.FinanceTracker

/-! ## The bank, and what is stored -/

/-- The calls of a sync while the bank has the transactions `l` for it. The database
may still fail at any call. -/
def Runtime.Fetching (rt : Runtime) (l : List BankTransaction) (db : Db) :
    (c : Call) → Answer c → Db → Prop
  | .fetchTransactions .., r, db' => r = .ok l ∧ db' = db
  | c, r, db' => rt.Exec db c r db'

/-- Those calls, answered. -/
def Runtime.fetching (rt : Runtime) (l : List BankTransaction) :
    (c : Call) → Db → Answer c × Db
  | .fetchTransactions .., db => (.ok l, db)
  | c, db => rt.answer c db

theorem Runtime.fetching_spec (rt : Runtime) (l : List BankTransaction) (c : Call) (db : Db) :
    rt.Fetching l db c (rt.fetching l c db).1 (rt.fetching l c db).2 := by
  cases c with
  | fetchTransactions => exact ⟨rfl, rfl⟩
  | _ => exact .answered db _

/-- The stored transactions; their ids come from a sequence and are left out. -/
def Tables.transactions (t : Tables) : Multiset Row :=
  (t .transaction : Multiset Row).map fun r => Function.update r .id .null

/-- The row that a sync stores for a bank transaction. -/
def syncedRow (householdId accountId : ℤ) (txn : BankTransaction) : Row :=
  .of [(.amount, .decimal (numeric txn.amount)), (.description, .string txn.description),
    (.date, (txn.date.map Value.dateTime).getD .null), (.accountId, .int accountId),
    (.householdId, .int householdId)]

/-- Each bank transaction is stored exactly once between `t` and `t'`, and nothing else is. -/
def StoredOnce (householdId accountId : ℤ) (l : List BankTransaction) (t t' : Tables) : Prop :=
  t'.transactions = t.transactions + l.map (syncedRow householdId accountId)

instance (householdId accountId : ℤ) (l : List BankTransaction) (t t' : Tables) :
    Decidable (StoredOnce householdId accountId l t t') :=
  inferInstanceAs (Decidable (_ = _))

/-- Is the call an insert of a transaction, and did it come through? -/
def isInsert : Prog.Made Call Answer → Bool
  | ⟨.create .transaction _, .ok _⟩ => true
  | _ => false

/-- How many inserts came through. -/
def inserted (made : List (Prog.Made Call Answer)) : ℕ := made.countP isInsert

@[simp] theorem inserted_append (made made' : List (Prog.Made Call Answer)) :
    inserted (made ++ made') = inserted made + inserted made' :=
  List.countP_append

/-! ## One insert -/

section

variable {rt : Runtime} {H accountId : ℤ} {l : List BankTransaction}

/-- What the loop hands to Prisma. -/
def syncData (householdId accountId : ℤ) (txn : BankTransaction) : Js :=
  .obj [("amount", .num txn.amount), ("description", .str txn.description),
    ("date", .date txn.date), ("accountId", .int accountId), ("householdId", .int householdId)]

theorem Runtime.newRow_other {m : Model} {data : Js} {new : Row} {c : Col}
    (h : rt.newRow m [] data = some new) (hc : m.field? c = none) : new c = .null := by
  unfold Runtime.newRow at h
  dsimp only at h
  split at h
  · cases h
    dsimp only
    rw [hc, Option.getD_some]
  · cases h

theorem Runtime.newRow_synced {txn : BankTransaction} {new : Row}
    (h : rt.newRow .transaction [] (syncData H accountId txn) = some new) :
    new = syncedRow H accountId txn := by
  have hdate : (txn.date.map Value.dateTime).map Value.stored = some (new .date) :=
    Runtime.newRow_value h (c := .date) (f := .required .date .dateTime) rfl
  have hsame : (txn.date.map Value.dateTime).map Value.stored = txn.date.map Value.dateTime := by
    cases txn.date <;> rfl
  funext c
  -- column by column; what is no field of the model has no value
  cases hc : Model.field? .transaction c with
  | none =>
      rw [Runtime.newRow_other h hc]
      cases c <;> first | rfl | cases hc
  | some f =>
      cases c with
      | id => exact (Option.some.inj (Runtime.newRow_value h (c := .id) rfl)).symm
      | amount => exact (Option.some.inj (Runtime.newRow_value h (c := .amount) rfl)).symm
      | description =>
          exact (Option.some.inj (Runtime.newRow_value h (c := .description) rfl)).symm
      | date =>
          show new .date = (txn.date.map Value.dateTime).getD .null
          rw [← hsame, hdate, Option.getD_some]
      | accountId => exact Runtime.newRow_int h (f := .required .accountId .int) rfl rfl rfl
      | householdId => exact Runtime.newRow_int h (f := .required .householdId .int) rfl rfl rfl
      | categoryId => exact (Option.some.inj (Runtime.newRow_value h (c := .categoryId) rfl)).symm
      | createdAt => exact (Option.some.inj (Runtime.newRow_value h (c := .createdAt) rfl)).symm
      | updatedAt => exact (Option.some.inj (Runtime.newRow_value h (c := .updatedAt) rfl)).symm
      | _ => cases hc

/-- A create that fails stores nothing, and one that comes through the one row. -/
theorem Runtime.Fetching.create_synced {db db' : Db} {txn : BankTransaction}
    {r : Except PrismaError Row}
    (h : rt.Fetching l db (.create .transaction (syncData H accountId txn)) r db') :
    ((∃ e, r = .error e) ∧ db'.rows.transactions = db.rows.transactions) ∨
      ∃ row, r = .ok row ∧
        db'.rows.transactions = db.rows.transactions + {syncedRow H accountId txn} := by
  rcases Runtime.Exec.create h rfl with ⟨e, hr, hrows⟩ | ⟨new, row, hnew, hr, hins⟩
  · exact .inl ⟨⟨e, hr⟩, by rw [hrows]⟩
  · refine .inr ⟨row, hr, ?_⟩
    have hcontent : Function.update row .id .null = syncedRow H accountId txn := by
      rw [← Runtime.newRow_synced hnew]
      funext c
      by_cases hc : c = .id
      · rw [hc, Function.update_self, Runtime.newRow_id hnew rfl]
      · rw [Function.update_of_ne hc, hins.cols c hc]
    rw [Tables.transactions, Tables.transactions, hins.rows, Function.update_self,
      ← Multiset.coe_add, Multiset.map_add, ← hcontent]
    rfl

/-! ## The loop and the run -/

/-- What a run has done when `made` are its calls: it has stored the first so many bank
transactions, and all of them when it ends with a result. -/
structure Synced {α : Type} (H accountId : ℤ) (l : List BankTransaction) (t : Tables)
    (o : Except ServiceError α) (t' : Tables) (made : List (Prog.Made Call Answer)) : Prop where
  stored : t'.transactions =
    t.transactions + (l.take (inserted made)).map (syncedRow H accountId)
  le : inserted made ≤ l.length
  all : ∀ a, o = .ok a → inserted made = l.length

/-- A run that makes no insert before it throws. -/
theorem Synced.refl {α : Type} {t : Tables} {e : ServiceError}
    {made : List (Prog.Made Call Answer)} (h : inserted made = 0) :
    Synced (α := α) H accountId l t (.error e) t made where
  stored := by rw [h]; simp
  le := by rw [h]; exact Nat.zero_le _
  all a ha := by cases ha

/-- The loop from a state in which `made` have been made. The induction is on the
transactions that are left: what is stored then is the rows of those whose create came
through, and a create that fails ends the loop. -/
theorem sync_each (bank : List BankTransaction) (l : List BankTransaction)
    (st : Db × List (Prog.Made Call Answer)) :
    (Prog.each l fun txn => FinanceTracker.create .transaction (syncData H accountId txn)).Always
      (Prog.logged (rt.Fetching bank)) st fun o st' =>
        ∃ made, st'.2 = st.2 ++ made ∧ Synced H accountId l st.1.rows o st'.1.rows made := by
  induction l generalizing st with
  | nil => exact ⟨[], (List.append_nil _).symm, by simp, le_refl _, fun _ _ => rfl⟩
  | cons txn l ih =>
      refine Prog.Always.bind ?_
      intro r st₁ hcall
      rcases hcall.1.create_synced with ⟨⟨e, rfl⟩, hrows⟩ | ⟨row, rfl, hrows⟩
      · -- the create failed, and the loop ends with it
        refine ⟨_, hcall.2, ⟨?_, Nat.zero_le _, fun a ha => by cases ha⟩⟩
        rw [hrows]
        simp [inserted, isInsert]
      · -- the create came through: one row now, and the rest of the loop as by induction
        refine Prog.Always.bind ((ih st₁).mono fun o st₂ ⟨made, hmade, hsynced⟩ => ?_)
        have hnext : Synced H accountId (txn :: l) st.1.rows o st₂.1.rows
            (⟨.create .transaction (syncData H accountId txn), Except.ok row⟩ :: made) := by
          have hcount : inserted (⟨.create .transaction (syncData H accountId txn),
              Except.ok row⟩ :: made) = inserted made + 1 := List.countP_cons_of_pos rfl
          refine ⟨?_, ?_, fun a ha => ?_⟩
          · rw [hcount, hsynced.stored, hrows, List.take_succ_cons, List.map_cons,
              ← Multiset.cons_coe, ← Multiset.singleton_add, add_assoc]
          · rw [hcount, List.length_cons]
            exact Nat.succ_le_succ hsynced.le
          · rw [hcount, List.length_cons, hsynced.all a ha]
        rw [hcall.2, List.append_assoc] at hmade
        cases o with
        | error e => exact ⟨_, hmade, hnext.stored, hnext.le, fun a ha => by cases ha⟩
        | ok rows => exact ⟨_, hmade, hnext.stored, hnext.le, fun a _ => hnext.all rows rfl⟩

/-- **A run**: nothing is stored before the loop, and the loop is as above. -/
theorem sync_always {adapters : List BankAdapter} {dateRange : Option (String × String)}
    (bank : List BankTransaction) (st : Db × List (Prog.Made Call Answer)) :
    (syncTransactions rt adapters H accountId dateRange).Always
      (Prog.logged (rt.Fetching bank)) st fun o st' =>
        ∃ made, st'.2 = st.2 ++ made ∧ Synced H accountId bank st.1.rows o st'.1.rows made := by
  refine syncTransactions_always (fun account st' => account.row .id = .int accountId ∧
    st'.1 = st.1 ∧ ∃ made, st'.2 = st.2 ++ made ∧ inserted made = 0) ?_ ?_ ?_ ?_
  · intro r st' hcall
    obtain ⟨hdb, hr⟩ := Runtime.Exec.findFirst hcall.1
    have hthrow : ∀ e : ServiceError, ∃ made, st'.2 = st.2 ++ made ∧
        Synced (α := SyncResult) H accountId bank st.1.rows (.error e) st'.1.rows made := by
      intro e
      rw [hdb]
      exact ⟨_, hcall.2, .refl rfl⟩
    rcases hr with ⟨e, rfl⟩ | ⟨hit, hcond, ⟨rfl, -⟩ | ⟨row, -, hhit, rfl⟩⟩
    · exact hthrow _
    · exact hthrow
    · exact ⟨(condition_ownRow hcond hhit rfl rfl).1, hdb, _, hcall.2, rfl⟩
  · rintro account st' e ⟨-, hdb, made, hmade, hnone⟩
    rw [hdb]
    exact ⟨made, hmade, .refl hnone⟩
  · rintro account st' t st'' ⟨hid, hdb, made, hmade, hnone⟩ hnow
    have hclock : dateNow.Always rt.Exec st'.1 fun _ db => db = st'.1 :=
      dateNow_always fun _ => rfl
    have hsame : st''.1 = st'.1 := hclock t st''.1 hnow.1
    refine ⟨hid, hsame.trans hdb, made ++ [⟨.dateNow, t⟩], ?_, by rw [inserted_append, hnone]; rfl⟩
    rw [hnow.2, hmade, List.append_assoc]
  · rintro account st' adapter start stop ⟨hid, hdb, made, hmade, hnone⟩ r st₁ ⟨⟨rfl, hdb₁⟩, hlog⟩
    rw [hid]
    refine Prog.Always.bind (show Prog.Always _ (Prog.ret bank) st₁ _ from ?_)
    refine Prog.Always.bind ((sync_each bank bank st₁).mono fun o st₂ ⟨made', hmade', h⟩ => ?_)
    obtain ⟨fetch, hfetch, hlog⟩ : ∃ m, isInsert m = false ∧ st₁.2 = st'.2 ++ [m] :=
      ⟨_, rfl, hlog⟩
    -- the calls before the loop, the answer of the bank, and the calls of the loop
    have hcount : inserted (made ++ [fetch] ++ made') = inserted made' := by
      rw [inserted_append, inserted_append, hnone, inserted, List.countP_singleton, hfetch]
      simp
    have hend : ∀ {o' : Except ServiceError SyncResult}, (∀ a, o' = .ok a → ∃ rows, o = .ok rows) →
        ∃ made, st₂.2 = st.2 ++ made ∧
          Synced H accountId bank st.1.rows o' st₂.1.rows made := by
      intro o' ho
      refine ⟨made ++ [fetch] ++ made', ?_, ?_⟩
      · rw [hmade', hlog, hmade]
        simp only [List.append_assoc]
      rw [← hdb, ← hdb₁]
      refine ⟨by rw [hcount]; exact h.stored, by rw [hcount]; exact h.le, fun a ha => ?_⟩
      obtain ⟨rows, hrows⟩ := ho a ha
      rw [hcount, h.all rows hrows]
    cases o with
    | error e => exact hend fun a ha => by cases ha
    | ok rows => exact hend fun _ _ => ⟨rows, rfl⟩

/-! ## Again

A second run, after one that ended in whatever way. -/

/-- What two runs leave: the part that the first one came to, and the whole list. -/
theorem sync_again {adapters : List BankAdapter} {dateRange : Option (String × String)}
    {db db₁ db₂ : Db} {o₁ : Except ServiceError SyncResult} {r₂ : SyncResult}
    {made : List (Prog.Made Call Answer)}
    (h₁ : (syncTransactions rt adapters H accountId dateRange).Ends
      (Prog.logged (rt.Fetching l)) (db, []) o₁ (db₁, made))
    (h₂ : (syncTransactions rt adapters H accountId dateRange).Ends (rt.Fetching l) db₁
      (.ok r₂) db₂) :
    Synced H accountId l db.rows o₁ db₁.rows made ∧
      StoredOnce H accountId l db₁.rows db₂.rows := by
  obtain ⟨made₁, hmade, hfirst⟩ := Prog.always_iff.mp (sync_always l (db, [])) _ _ h₁
  rw [List.nil_append] at hmade
  obtain ⟨log, h₂⟩ := (Prog.ends_logged []).mp h₂
  obtain ⟨made₂, -, hsecond⟩ := Prog.always_iff.mp (sync_always l (db₁, [])) _ _ h₂
  refine ⟨by rw [show made = made₁ from hmade]; exact hfirst, ?_⟩
  have hstored := hsecond.stored
  rw [hsecond.all r₂ rfl, List.take_length] at hstored
  exact hstored

/-- The rows of the first `k` of a list are none exactly for `k = 0`. -/
theorem take_synced_eq_zero {k : ℕ} (hk : k ≤ l.length) :
    ((l.take k).map (syncedRow H accountId) : Multiset Row) = 0 ↔ k = 0 := by
  rw [Multiset.coe_eq_zero, List.map_eq_nil_iff, List.take_eq_nil_iff]
  constructor
  · rintro (hk | rfl)
    · exact hk
    · exact Nat.le_zero.mp hk
  · exact .inl

/-- **A sync is safe to repeat exactly when the earlier run stored nothing.** Each bank
transaction is then stored once, as by a single run; an earlier run that went well has
stored nothing only when the bank had nothing. -/
theorem sync_again_iff {adapters : List BankAdapter} {dateRange : Option (String × String)}
    {db db₁ db₂ : Db} {o₁ : Except ServiceError SyncResult} {r₂ : SyncResult}
    {made : List (Prog.Made Call Answer)}
    (h₁ : (syncTransactions rt adapters H accountId dateRange).Ends
      (Prog.logged (rt.Fetching l)) (db, []) o₁ (db₁, made))
    (h₂ : (syncTransactions rt adapters H accountId dateRange).Ends (rt.Fetching l) db₁
      (.ok r₂) db₂) :
    (StoredOnce H accountId l db.rows db₂.rows ↔ inserted made = 0) ∧
      (∀ r, o₁ = .ok r → (inserted made = 0 ↔ l = [])) ∧
      ∀ r db', (syncTransactions rt adapters H accountId dateRange).Ends (rt.Fetching l) db
        (.ok r) db' → StoredOnce H accountId l db.rows db'.rows ∧
          (db₂.rows.transactions = db'.rows.transactions ↔ inserted made = 0) := by
  obtain ⟨hfirst, hsecond⟩ := sync_again h₁ h₂
  have honce : StoredOnce H accountId l db.rows db₂.rows ↔ inserted made = 0 := by
    rw [StoredOnce, hsecond, hfirst.stored, add_assoc, add_left_cancel_iff, add_eq_right]
    exact take_synced_eq_zero hfirst.le
  refine ⟨honce, fun r hr => ?_, fun r db' hone => ?_⟩
  · rw [hfirst.all r hr, List.length_eq_zero_iff]
  · -- one run is the second of two runs the first of which did nothing
    obtain ⟨log, hlogged⟩ := (Prog.ends_logged []).mp hone
    obtain ⟨made', -, hrun⟩ := Prog.always_iff.mp (sync_always l (db, [])) _ _ hlogged
    have hstored := hrun.stored
    rw [hrun.all r rfl, List.take_length] at hstored
    refine ⟨hstored, ?_⟩
    rw [← honce, StoredOnce, ← hstored]

end

/-! ## The seeded account, synced twice -/

namespace BankSync

/-- A runtime that writes texts out, and knows no other value. -/
def texts : Runtime :=
  { Runtime.closed with
    text := fun js => match js with
      | .str s => s
      | _ => "" }

def adapters : List BankAdapter :=
  [⟨"ChaseAdapter", fun bankName => bankName.toLower = "chase"⟩,
    ⟨"WellsFargoAdapter", fun bankName => bankName.toLower = "wells_fargo"⟩]

/-- What the bank has for the account. -/
def bank : List BankTransaction :=
  [⟨"chase-txn-1", -4599 / 100, "AMAZON.COM*RT5KL2 AMZN.COM/BILL WA", some 86400000⟩,
    ⟨"chase-txn-2", -25 / 2, "STARBUCKS STORE #12345", some 172800000⟩]

def sync : Service SyncResult := syncTransactions texts adapters 1 1 none

/-- The calls while no insert comes through. -/
def readOnly : (c : Call) → Db → Answer c × Db
  | .create .., db => (.error .unavailable, db)
  | c, db => texts.fetching bank c db

theorem readOnly_spec (c : Call) (db : Db) :
    texts.Fetching bank db c (readOnly c db).1 (readOnly c db).2 := by
  cases c with
  | create => exact .unreachable db rfl
  | _ => exact texts.fetching_spec bank _ db

/-- A run that fails at its first insert, and a second one after it. -/
def failed : Except ServiceError SyncResult × Db × List (Prog.Made Call Answer) :=
  sync.run (Prog.logging readOnly) (seeded, [])

def retried : Except ServiceError SyncResult × Db := sync.run (texts.fetching bank) failed.2.1

/-- A run that nothing goes wrong in, and a second one after it. -/
def once : Except ServiceError SyncResult × Db := sync.run (texts.fetching bank) seeded

def twice : Except ServiceError SyncResult × Db := sync.run (texts.fetching bank) once.2

end BankSync

open BankSync in
/-- The database takes no writes during the first run, which fails at its first create; the
second run stores each transaction of the bank once. -/
theorem sync_again_iff_example : StoredOnce 1 1 bank seeded.rows retried.2.rows := by
  have hok : retried.1.isOk = true := by decide +kernel
  obtain ⟨r, hr⟩ : ∃ r, retried.1 = .ok r := by
    revert hok
    cases retried.1 with
    | error e => exact fun hok => by cases hok
    | ok r => exact fun _ => ⟨r, rfl⟩
  have hretried : sync.Ends (texts.Fetching bank) failed.2.1 (.ok r) retried.2 := by
    rw [← hr]
    exact Prog.Ends.of_run (texts.fetching_spec bank) sync failed.2.1
  have hfailed := Prog.ends_logging readOnly_spec sync (seeded, [])
  exact (sync_again_iff hfailed hretried).1.mpr (by decide +kernel)

/-- **Everything is stored twice**: the ids of the bank are distinct and both runs end well,
and yet there are two rows for each transaction, since no column holds the id by which a run
could tell that it is there. -/
theorem BankSync.stored_twice :
    (bank.map (·.externalId)).Nodup ∧
      sync.Ends (texts.Fetching bank) seeded once.1 once.2 ∧ once.1.isOk = true ∧
      sync.Ends (texts.Fetching bank) once.2 twice.1 twice.2 ∧ twice.1.isOk = true ∧
      StoredOnce 1 1 bank seeded.rows once.2.rows ∧
      ¬ StoredOnce 1 1 bank seeded.rows twice.2.rows ∧
      twice.2.rows.transactions ≠ once.2.rows.transactions :=
  ⟨by decide, Prog.Ends.of_run (texts.fetching_spec bank) sync seeded, by decide +kernel,
    Prog.Ends.of_run (texts.fetching_spec bank) sync once.2, by decide +kernel,
    by decide +kernel, by decide +kernel, by decide +kernel⟩

end EngineeringLab.FinanceTracker
