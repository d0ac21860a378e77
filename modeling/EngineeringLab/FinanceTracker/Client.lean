/-
The calls that the services make: Prisma's operations on a model, the bank adapters
and the clock, with their effect on the database (`Exec`).

Each call is one atomic step. A `where` of the services is a conjunction of
conditions on columns (`Runtime.condition`); an `include` is a list of paths of
relation fields, and its records come with the row (`Entity`).

A record that comes back carries the records that its `include` names, as they are at that
moment (`Tables.entity`): the query and its includes are one step. Which row a relation
leads to is a matter of the tables alone (`Tables.follow`).

What a call answers and does is a function of the database where it can be one
(`Runtime.answer`). Besides, every call may fail without any effect, as a connection may be
lost (`unreachable`), and the bank and the clock may answer whatever they like.
`Runtime.Exec` is the relation of all these possibilities, and the theorems about runs are
about that relation; the examples use the function.
-/
import EngineeringLab.FinanceTracker.Prisma

set_option autoImplicit false

open Concurrency

namespace EngineeringLab.FinanceTracker

/-! ## Where and include -/

abbrev Where := List (Col × Js)

/-- What a `where` says about one column: nothing when the value is `undefined`. -/
def Runtime.columnCondition (rt : Runtime) (f : Field) : Js → Option (Value → Bool)
  | .undefined => some fun _ => true
  | .null => if f.optional then some (· = .null) else none
  | .obj fields => rt.filter f.type fields
  | js => (rt.read f.type js).map fun v => (· = v)

/-- The rows that a `where` selects; `none` when Prisma rejects it. -/
def Runtime.condition (rt : Runtime) (m : Model) : Where → Option (Row → Bool)
  | [] => some fun _ => true
  | (c, js) :: w =>
    match (m.field? c).bind (rt.columnCondition · js), rt.condition m w with
    | some p, some q => some fun r => p (r c) && q r
    | _, _ => none

/-- A path of relation fields for each group of records to fetch along. -/
abbrev Include := List (List String)

/-- A row with the records that came along. -/
structure Entity where
  row : Row
  included : List (Model × Row)

/-- The records that the relation field `key` of a row leads to. -/
def Tables.follow (t : Tables) (m : Model) (r : Row) (key : String) : List (Model × Row) :=
  ((m.foreignKeys.filter (·.field = key)).flatMap fun fk =>
    ((t fk.target).filter fun p => p .id = r fk.col).map (fk.target, ·)) ++
  (m.children.filter (·.2.back = key)).flatMap fun child =>
    ((t child.1).filter fun s => s child.2.col = r .id).map (child.1, ·)

theorem Tables.mem_follow {t : Tables} {m : Model} {r : Row} {key : String} {p : Model × Row} :
    p ∈ t.follow m r key ↔
      (∃ fk ∈ m.foreignKeys, fk.field = key ∧ p.1 = fk.target ∧ p.2 ∈ t p.1 ∧ p.2 .id = r fk.col) ∨
        ∃ child ∈ m.children, child.2.back = key ∧ p.1 = child.1 ∧ p.2 ∈ t p.1 ∧
          p.2 child.2.col = r .id := by
  obtain ⟨m', r'⟩ := p
  simp only [Tables.follow, List.mem_append, List.mem_flatMap, List.mem_filter, List.mem_map,
    decide_eq_true_eq, Prod.mk.injEq]
  refine or_congr ⟨?_, ?_⟩ ⟨?_, ?_⟩
  · rintro ⟨fk, ⟨hfk, hkey⟩, r₀, ⟨hr, hid⟩, rfl, rfl⟩
    exact ⟨fk, hfk, hkey, rfl, hr, hid⟩
  · rintro ⟨fk, hfk, hkey, rfl, hr, hid⟩
    exact ⟨fk, ⟨hfk, hkey⟩, r', ⟨hr, hid⟩, rfl, rfl⟩
  · rintro ⟨child, ⟨hchild, hkey⟩, r₀, ⟨hr, hid⟩, rfl, rfl⟩
    exact ⟨child, hchild, hkey, rfl, hr, hid⟩
  · rintro ⟨child, hchild, hkey, rfl, hr, hid⟩
    exact ⟨child, ⟨hchild, hkey⟩, r', ⟨hr, hid⟩, rfl, rfl⟩

def Tables.followPath (t : Tables) (m : Model) (r : Row) : List String → List (Model × Row)
  | [] => []
  | [key] => t.follow m r key
  | key :: path => (t.follow m r key).flatMap fun p => t.followPath p.1 p.2 path

def Tables.entity (t : Tables) (m : Model) (incl : Include) (r : Row) : Entity :=
  ⟨r, incl.flatMap (t.followPath m r)⟩

/-! ## Calls -/

/-- `BankTransaction`; nothing reads the `externalId`. -/
structure BankTransaction where
  externalId : String
  amount : ℚ
  description : String
  date : Option ℤ
  deriving DecidableEq

inductive Call where
  | findFirst (m : Model) (w : Where) (incl : Include)
  | findMany (m : Model) (w : Where) (incl : Include)
  | create (m : Model) (data : Js)
  | update (m : Model) (w : Where) (data : Js)
  | updateMany (m : Model) (w : Where) (data : Js)
  | delete (m : Model) (w : Where)
  | deleteMany (m : Model) (w : Where)
  | fetchTransactions (adapter : String) (accountId : String) (start stop : Option ℤ)
  | dateNow

abbrev Answer : Call → Type
  | .findFirst .. => Except PrismaError (Option Entity)
  | .findMany .. => Except PrismaError (List Entity)
  | .create .. => Except PrismaError Row
  | .update .. => Except PrismaError Row
  | .updateMany .. => Except PrismaError ℕ
  | .delete .. => Except PrismaError Row
  | .deleteMany .. => Except PrismaError ℕ
  | .fetchTransactions .. => Except String (List BankTransaction)
  | .dateNow => ℤ

/-- What a service throws: an HTTP exception, or what it got from a call. -/
inductive ServiceError where
  | notFoundException (message : String)
  | badRequestException (message : String)
  | forbiddenException (message : String)
  | internalServerErrorException (message : String)
  | prisma (e : PrismaError)
  | adapter (message : String)
  deriving DecidableEq, Repr

/-- A service method. -/
abbrev Service (α : Type) : Type := Prog Call Answer ServiceError α

/-- The result of a Prisma call, or its error thrown. -/
def awaited {α : Type} : Except PrismaError α → Service α
  | .ok a => .ret a
  | .error e => .throw (.prisma e)

def findFirst (m : Model) (w : Where) (incl : Include) : Service (Option Entity) :=
  .call (.findFirst m w incl) awaited
def findMany (m : Model) (w : Where) (incl : Include) : Service (List Entity) :=
  .call (.findMany m w incl) awaited
def create (m : Model) (data : Js) : Service Row := .call (.create m data) awaited
def update (m : Model) (w : Where) (data : Js) : Service Row := .call (.update m w data) awaited
def updateMany (m : Model) (w : Where) (data : Js) : Service ℕ :=
  .call (.updateMany m w data) awaited
def delete (m : Model) (w : Where) : Service Row := .call (.delete m w) awaited
def deleteMany (m : Model) (w : Where) : Service ℕ := .call (.deleteMany m w) awaited
def fetchTransactions (adapter accountId : String) (start stop : Option ℤ) :
    Service (List BankTransaction) :=
  .call (.fetchTransactions adapter accountId start stop) fun
    | .ok l => .ret l
    | .error e => .throw (.adapter e)
def dateNow : Service ℤ := .call .dateNow .ret

/-! ## Effects -/

section

variable (rt : Runtime)

/-- The statements of `create`. -/
def Runtime.createProgram (m : Model) (data : Js) : Nested Row :=
  rt.perform data.depth (.create m [] [] data)

/-- The statements of `update`. -/
def Runtime.updateProgram (m : Model) (hit : Row → Bool) (data : Js) : Nested Row := do
  match ← sqlSelect m hit with
  | [] => .throw .recordNotFound
  | r :: _ => rt.perform data.depth (.update m r [] data)

/-- The statement of `updateMany`, which takes scalar fields only. -/
def Runtime.updateManyProgram (m : Model) (hit : Row → Bool) (data : Js) : Nested ℕ :=
  match rt.ops m data with
  | some ops =>
    if data.hasOnly (m.fields.map (·.col.key)) then sqlUpdate m hit ops else .throw .validation
  | none => .throw .validation

def deleteProgram (m : Model) (hit : Row → Bool) : Nested Row := do
  match ← sqlSelect m hit with
  | [] => .throw .recordNotFound
  | r :: _ =>
    let _ ← sqlDelete m (hasId (r .id))
    return r

/-- Run `p` with the condition that the `where` stands for. -/
def Runtime.selecting {α : Type} (m : Model) (w : Where) (p : (Row → Bool) → Nested α) : Nested α :=
  match rt.condition m w with
  | some hit => p hit
  | none => .throw .validation

/-- A Prisma call on a database that can be reached; a `findFirst` takes the first row
of the table that it can. -/
def Runtime.answer : (c : Call) → Db → Answer c × Db
  | .findFirst m w incl, db =>
    (match rt.condition m w with
    | some hit => .ok (((db.rows m).find? hit).map (db.rows.entity m incl))
    | none => .error .validation, db)
  | .findMany m w incl, db =>
    (match rt.condition m w with
    | some hit => .ok (((db.rows m).filter hit).map (db.rows.entity m incl))
    | none => .error .validation, db)
  | .create m data, db => transaction (rt.createProgram m data) db
  | .update m w data, db =>
    transaction (rt.selecting m w fun hit => rt.updateProgram m hit data) db
  | .updateMany m w data, db =>
    transaction (rt.selecting m w fun hit => rt.updateManyProgram m hit data) db
  | .delete m w, db => transaction (rt.selecting m w (deleteProgram m)) db
  | .deleteMany m w, db => transaction (rt.selecting m w (sqlDelete m)) db
  | .fetchTransactions .., db => (.ok [], db)
  | .dateNow, db => (0, db)

/-- The answer of a call that fails because the other side cannot be reached. -/
def unreachable : (c : Call) → Option (Answer c)
  | .findFirst .. => some (.error .unavailable)
  | .findMany .. => some (.error .unavailable)
  | .create .. => some (.error .unavailable)
  | .update .. => some (.error .unavailable)
  | .updateMany .. => some (.error .unavailable)
  | .delete .. => some (.error .unavailable)
  | .deleteMany .. => some (.error .unavailable)
  | .fetchTransactions .. => none
  | .dateNow => none

/-- What a call may answer and do. Any Prisma call may fail without an effect; a
`findFirst` may take any row that the `where` selects; a bank adapter and the clock may
answer anything. -/
inductive Runtime.Exec : Db → (c : Call) → Answer c → Db → Prop
  | answered (db : Db) (c : Call) : Exec db c (rt.answer c db).1 (rt.answer c db).2
  | unreachable (db : Db) {c : Call} {r : Answer c} (h : unreachable c = some r) : Exec db c r db
  | found (db : Db) {m : Model} {w : Where} {incl : Include} {hit : Row → Bool} {r : Row}
      (hw : rt.condition m w = some hit) (hr : r ∈ db.rows m) (hhit : hit r = true) :
      Exec db (.findFirst m w incl) (.ok (some (db.rows.entity m incl r))) db
  | fetched (db : Db) {adapter accountId : String} {start stop : Option ℤ}
      (r : Except String (List BankTransaction)) :
      Exec db (.fetchTransactions adapter accountId start stop) r db
  | now (db : Db) (t : ℤ) : Exec db .dateNow t db

end

/-- The state that a service leaves when each of its calls is answered. -/
def after {α : Type} (rt : Runtime) (p : Service α) (db : Db) : Db := (p.run rt.answer db).2

theorem ends_after {α : Type} (rt : Runtime) (p : Service α) (db : Db) :
    p.Ends rt.Exec db (p.run rt.answer db).1 (after rt p db) :=
  Prog.Ends.of_run (fun c s => .answered s c) p db

end EngineeringLab.FinanceTracker
