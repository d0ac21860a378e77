/-
The Prisma client: how a call's arguments become SQL statements.

A call is one transaction. Reads, `updateMany` and `deleteMany` are one statement
each; `create`, `update` and `delete` run a program of statements, since their `data`
may hold nested writes on related records at any depth (`Runtime.perform`). What a
value means for a column is `Runtime.read` and `Runtime.readOp`; what JavaScript and
Prisma do with dates, decimal strings and filter objects is the `Runtime`, a
parameter of everything below.

What a value means depends on the column. An `Int` takes any number and drops its fraction;
a decimal takes a number or a numeral and rounds what it stores to the digits that
`DECIMAL(65,30)` has; a column with a default takes nothing as well, and so do the two time
stamps, which Prisma fills in by itself. A field that no column and no relation has is an
error before anything is sent (`Model.accepts`).

Nested writes follow the relations of the schema. A to-one relation may create, connect or
update what the record refers to, before the record itself is written; a to-many relation
may do that, and more, to the records that refer to it, afterwards. Each of them takes a
`data` of its own, with the field that leads back hidden. `Runtime.perform` is one recursion
over both directions, as deep as the body is nested.
-/
import EngineeringLab.Concurrency.Prog
import EngineeringLab.FinanceTracker.Database
import EngineeringLab.FinanceTracker.Js

set_option autoImplicit false

open Concurrency

namespace EngineeringLab.FinanceTracker

/-- The parts of JavaScript and of Prisma's input language that are left open. A
filter or a `where` that Prisma rejects is `none`. -/
structure Runtime where
  /-- `new Date(v)`; `none` is an invalid date. -/
  newDate : Js → Option ℤ
  /-- `String(v)`. -/
  text : Js → String
  /-- `Number(d)` of a `Decimal`: the double nearest to it, as the decimal that it is written
  as when it is handed on. -/
  number : ℚ → ℚ
  /-- A string as the value of a `DateTime` field. -/
  isoDate : String → Option ℤ
  /-- A string as the value of a `Decimal` field. -/
  decimal : String → Option ℚ
  /-- A filter object (`gt`, `in`, ..) on a field of the type. -/
  filter : ScalarType → List (String × Js) → Option (Value → Bool)
  /-- The `where` of a nested write that names one record. -/
  whereUnique : Model → Js → Option (Row → Bool)
  /-- The `where` of a nested `updateMany` or `deleteMany`. -/
  whereMany : Model → Js → Option (Row → Bool)

/-- A runtime that takes no value of the kinds that are left open, and in which a `Decimal` is
a number. Where none occurs, and no `Decimal` of more than fifteen digits, it does what any
other does. -/
def Runtime.closed : Runtime where
  newDate _ := none
  text _ := ""
  number q := q
  isoDate _ := none
  decimal _ := none
  filter _ _ := none
  whereUnique _ _ := none
  whereMany _ _ := none

/-- The same, but for one date that it reads. -/
def Runtime.mayFirst : Runtime :=
  { Runtime.closed with
    newDate := fun js => match js with
      | .str "2026-05-01" => some 1777593600000
      | _ => none }

/-! ## Scalar fields -/

/-- A value given for a field of the type. A fraction is no reason to reject a number for an
`Int`: it is cut off. -/
def Runtime.read (rt : Runtime) : ScalarType → Js → Option Value
  | .int, .num q =>
    let z := q.num.tdiv q.den
    if int4 z = true then some (.int z) else none
  | .string, .str s => some (.string s)
  | .stringList, .arr xs =>
    (xs.mapM Js.string?).map .stringList
  | .decimal, .num q => some (.decimal q)
  | .decimal, .str s => (rt.decimal s).map .decimal
  | .dateTime, .date time => time.map .dateTime
  | .dateTime, .str s => (rt.isoDate s).map .dateTime
  | .boolean, .bool b => some (.boolean b)
  | _, _ => none

/-- A value as its column keeps it. -/
def Value.stored : Value → Value
  | .decimal q => .decimal (numeric q)
  | v => v

/-- A value given for a column, where `null` is one for an optional field. -/
def Runtime.readNullable (rt : Runtime) (f : Field) : Js → Option Value
  | .null => if f.optional then some .null else none
  | js => (rt.read f.type js).map Value.stored

/-- The value of a field in the `data` of a create. An id left out is `null` here and
comes from the sequence. -/
def Runtime.createValue (rt : Runtime) (f : Field) : Js → Option Value
  | .undefined =>
    if f.col = .id then some .null
    else f.default.orElse fun _ => if f.optional then some .null else none
  | .obj [("set", v)] => if f.type = .stringList then rt.read .stringList v else none
  | js => rt.readNullable f js

inductive Arith where
  | increment | decrement | multiply | divide
  deriving DecidableEq, Repr

/-- What an update does to a column. -/
inductive ScalarOp where
  | set (v : Value)
  | arith (op : Arith) (v : Value)
  | push (l : List String)
  deriving DecidableEq

/-- The new value of the column; dividing by zero fails, arithmetic on `NULL` gives
`NULL`, and a decimal is rounded to what its column keeps. -/
def ScalarOp.apply : ScalarOp → Value → Option Value
  | .set v, _ => some v
  | .arith .increment (.int b), .int a => some (.int (a + b))
  | .arith .decrement (.int b), .int a => some (.int (a - b))
  | .arith .multiply (.int b), .int a => some (.int (a * b))
  | .arith .divide (.int b), .int a => if b = 0 then none else some (.int (a.tdiv b))
  | .arith .increment (.decimal b), .decimal a => some (.decimal (numeric (a + b)))
  | .arith .decrement (.decimal b), .decimal a => some (.decimal (numeric (a - b)))
  | .arith .multiply (.decimal b), .decimal a => some (.decimal (numeric (a * b)))
  | .arith .divide (.decimal b), .decimal a =>
    if b = 0 then none else some (.decimal (numeric (a / b)))
  | .push l, .stringList l' => some (.stringList (l' ++ l))
  | _, v => some v

def Arith.ofKey : String → Option Arith
  | "increment" => some .increment
  | "decrement" => some .decrement
  | "multiply" => some .multiply
  | "divide" => some .divide
  | _ => none

/-- A field in the `data` of an update: left alone when `undefined`, otherwise a
value or an object with one operator. `none` when Prisma rejects it. -/
def Runtime.readOp (rt : Runtime) (f : Field) : Js → Option (Option ScalarOp)
  | .undefined => some none
  | .obj [(key, v)] =>
    if key = "set" then (rt.readNullable f v).map fun v => some (.set v)
    else if key = "push" then
      match f.type, rt.read .stringList (.arr v.list) with
      | .stringList, some l => some (some (.push l.strings))
      | _, _ => none
    else
      match f.type, Arith.ofKey key, rt.read f.type v with
      | .int, some op, some v => some (some (.arith op v))
      | .decimal, some op, some v => some (some (.arith op v))
      | _, _, _ => none
  | js => (rt.readNullable f js).map fun v => some (.set v)

/-- What `data` does to the scalar columns of a row of `m`. -/
def Runtime.ops (rt : Runtime) (m : Model) (data : Js) : Option (List (Col × ScalarOp)) :=
  (m.fields.mapM fun f => (rt.readOp f (data.get f.col.key)).map fun op => op.map (f.col, ·)).map
    (·.reduceOption)

/-- A row with the columns changed; later changes win. -/
def applyOps : List (Col × ScalarOp) → Row → Option Row
  | [], r => some r
  | (c, op) :: ops, r =>
    (op.apply (r c)).bind fun v => applyOps ops (Function.update r c v)

/-! ## SQL -/

inductive Sql where
  | insert (m : Model) (r : Row)
  | select (m : Model) (hit : Row → Bool)
  | update (m : Model) (hit : Row → Bool) (ops : List (Col × ScalarOp))
  | delete (m : Model) (hit : Row → Bool)

abbrev SqlAnswer : Sql → Type
  | .insert .. => Except PrismaError Row
  | .select .. => List Row
  | .update .. => Except PrismaError ℕ
  | .delete .. => Except PrismaError ℕ

/-- One statement on the database. -/
def Sql.exec : (c : Sql) → Db → SqlAnswer c × Db
  | .insert m r, db => db.insert m r
  | .select m hit, db => ((db.rows m).filter hit, db)
  | .update m hit ops, db =>
    if (db.rows m).all fun r => !hit r || (applyOps ops r).isSome then
      match db.update m hit fun r => (applyOps ops r).getD r with
      | .ok db' => (.ok ((db.rows m).countP hit), db')
      | .error e => (.error e, db)
    else (.error .valueOutOfRange, db)
  | .delete m hit, db =>
    match db.delete m hit with
    | .ok db' => (.ok ((db.rows m).countP hit), db')
    | .error e => (.error e, db)

/-- A program of statements. -/
abbrev Nested (α : Type) : Type := Prog Sql SqlAnswer PrismaError α

def sqlInsert (m : Model) (r : Row) : Nested Row :=
  .call (.insert m r) fun
    | .ok r => .ret r
    | .error e => .throw e
def sqlSelect (m : Model) (hit : Row → Bool) : Nested (List Row) := .call (.select m hit) .ret
def sqlUpdate (m : Model) (hit : Row → Bool) (ops : List (Col × ScalarOp)) : Nested ℕ :=
  .call (.update m hit ops) fun
    | .ok n => .ret n
    | .error e => .throw e
def sqlDelete (m : Model) (hit : Row → Bool) : Nested ℕ :=
  .call (.delete m hit) fun
    | .ok n => .ret n
    | .error e => .throw e

/-- The row has this id. -/
def hasId (v : Value) (r : Row) : Bool := r .id = v

/-- A program as one transaction: when it throws, only the sequences have moved. -/
def transaction {α : Type} (p : Nested α) (db : Db) : Except PrismaError α × Db :=
  match p.run Sql.exec db with
  | (.ok a, db') => (.ok a, db')
  | (.error e, db') => (.error e, { db with seq := db'.seq })

/-! ## Nested writes -/

/-- The fields that `data` for `m` may have. -/
def Model.dataKeys (m : Model) : List String :=
  m.fields.map (·.col.key) ++ m.foreignKeys.map (·.field) ++ m.children.map (·.2.back)

/-- Are all fields of `data` among `keys`? -/
def Js.hasOnly (data : Js) (keys : List String) : Bool :=
  match data with
  | .obj fields => fields.all fun field => keys.contains field.1
  | _ => false

def Js.isDefined : Js → Bool
  | .undefined => false
  | _ => true

/-- Prisma takes `data` with scalar foreign keys (or an id) or with the relation
fields in their place, but not with both. -/
def Model.mixes (m : Model) (hidden : List String) (data : Js) : Bool :=
  let raw := "id" :: m.foreignKeys.map (·.col.key)
  let related := m.foreignKeys.map (·.field)
  raw.any (fun k => !hidden.contains k && (data.get k).isDefined) &&
    related.any (fun k => !hidden.contains k && (data.get k).isDefined)

/-- Is `data` an object with fields that Prisma accepts, in a place that does not offer
`hidden`? -/
def Model.accepts (m : Model) (hidden : List String) (data : Js) : Bool :=
  data.hasOnly (m.dataKeys.filter fun k => !hidden.contains k) && !m.mixes hidden data

/-- One write on a record: create it, with some columns given by the write around it,
or update the record `row`. `hidden` are the fields that the place does not offer. -/
inductive Job where
  | create (m : Model) (links : List (Col × Value)) (hidden : List String) (data : Js)
  | update (m : Model) (row : Row) (hidden : List String) (data : Js)

section

variable (rt : Runtime)

/-- The row that `data` and the given columns make. -/
def Runtime.newRow (m : Model) (links : List (Col × Value)) (data : Js) : Option Row :=
  let value (c : Col) : Option Value :=
    match m.field? c with
    | none => some .null
    | some f => (links.lookup c).orElse fun _ => rt.createValue f (data.get c.key)
  if ∀ c, (value c).isSome = true then some fun c => (value c).getD .null else none

/-- The record that a unique `where` names, if it is there. -/
def Runtime.findUnique? (m : Model) (w : Js) : Nested (Option Row) :=
  match rt.whereUnique m w with
  | none => .throw .validation
  | some hit => sqlSelect m hit >>= fun rows => .ret rows.head?

def Runtime.findUnique (m : Model) (w : Js) : Nested Row := do
  match ← rt.findUnique? m w with
  | none => .throw .recordNotFound
  | some r => return r

variable (rec : Job → Nested Row)

/-- A to-one relation in the `data` of a create: the column that it sets. -/
def Runtime.parentOfCreate (fk : ForeignKey) : Js → Nested (List (Col × Value))
  | .undefined => return []
  | .obj [("create", data)] => do
    let p ← rec (.create fk.target [] [fk.back] data)
    return [(fk.col, p .id)]
  | .obj [("connect", w)] => do
    let p ← rt.findUnique fk.target w
    return [(fk.col, p .id)]
  | .obj [("connectOrCreate", arg)] => do
    match ← rt.findUnique? fk.target (arg.get "where") with
    | some p => return [(fk.col, p .id)]
    | none =>
      let p ← rec (.create fk.target [] [fk.back] (arg.get "create"))
      return [(fk.col, p .id)]
  | _ => .throw .validation

/-- A to-one relation in the `data` of an update of `row`. -/
def Runtime.parentOfUpdate (fk : ForeignKey) (optional : Bool) (row : Row) :
    Js → Nested (List (Col × Value))
  | .obj [("update", arg)] => do
    let data := if (arg.get "data").isDefined then arg.get "data" else arg
    match ← sqlSelect fk.target (hasId (row fk.col)) with
    | [] => .throw .recordNotFound
    | p :: _ =>
      let _ ← rec (.update fk.target p [fk.back] data)
      return []
  | .obj [("upsert", arg)] => do
    match ← sqlSelect fk.target (hasId (row fk.col)) with
    | [] =>
      let p ← rec (.create fk.target [] [fk.back] (arg.get "create"))
      return [(fk.col, p .id)]
    | p :: _ =>
      let _ ← rec (.update fk.target p [fk.back] (arg.get "update"))
      return []
  | .obj [("disconnect", .bool true)] =>
    if optional then return [(fk.col, .null)] else .throw .validation
  | .obj [("delete", .bool true)] =>
    if optional then do
      let _ ← sqlDelete fk.target (hasId (row fk.col))
      return []
    else .throw .validation
  | js => rt.parentOfCreate rec fk js

/-- One verb of a to-many relation of the record `parent`. The verbs on records that
are already related are offered in an update only. -/
def Runtime.childVerb (child : Model) (fk : ForeignKey) (parent : Value) (inUpdate : Bool)
    (verb : String) (arg : Js) : Nested Unit := do
  let link : List (Col × ScalarOp) := [(fk.col, .set parent)]
  let unlink : List (Col × ScalarOp) := [(fk.col, .set .null)]
  let optional := ((child.field? fk.col).map (·.optional)).getD false
  let related (r : Row) : Bool := r fk.col = parent
  let hidden := [fk.col.key, fk.field]
  let release (r : Row) : Nested Unit :=
    if optional then do
      let _ ← sqlUpdate child (hasId (r .id)) unlink
    else .throw .requiredRelation
  match verb, inUpdate with
  | "create", _ => do
    let _ ← Prog.each arg.list fun data => rec (.create child [(fk.col, parent)] hidden data)
  | "createMany", _ => do
    let relations := child.foreignKeys.map (·.field) ++ child.children.map (·.2.back)
    let _ ← Prog.each (arg.get "data").list fun data =>
      ((do
        let _ ← rec (.create child [(fk.col, parent)] (hidden ++ relations) data)) :
          Nested Unit).tryCatch fun e =>
        if e = .uniqueConstraint ∧ (arg.get "skipDuplicates").truthy = true then return ()
        else .throw e
  | "connect", _ => do
    let _ ← Prog.each arg.list fun w => do
      let r ← rt.findUnique child w
      sqlUpdate child (hasId (r .id)) link
  | "connectOrCreate", _ => do
    let _ ← Prog.each arg.list fun a => do
      match ← rt.findUnique? child (a.get "where") with
      | some r => do
        let _ ← sqlUpdate child (hasId (r .id)) link
      | none => do
        let _ ← rec (.create child [(fk.col, parent)] hidden (a.get "create"))
  | "update", true => do
    let _ ← Prog.each arg.list fun a => do
      let r ← rt.findUnique child (a.get "where")
      if related r then rec (.update child r hidden (a.get "data")) else .throw .recordNotFound
  | "upsert", true => do
    let _ ← Prog.each arg.list fun a => do
      match (← rt.findUnique? child (a.get "where")).filter related with
      | some r => rec (.update child r hidden (a.get "update"))
      | none => rec (.create child [(fk.col, parent)] hidden (a.get "create"))
  | "delete", true => do
    let _ ← Prog.each arg.list fun w => do
      let r ← rt.findUnique child w
      if related r then sqlDelete child (hasId (r .id)) else .throw .recordNotFound
  | "disconnect", true => do
    let _ ← Prog.each arg.list fun w => do
      let r ← rt.findUnique child w
      if related r then release r else return ()
  | "set", true => do
    let targets ← Prog.each arg.list (rt.findUnique child)
    let rows ← sqlSelect child related
    let _ ← Prog.each (rows.filter fun r => !targets.any fun t => t .id = r .id) release
    let _ ← Prog.each targets fun t => sqlUpdate child (hasId (t .id)) link
  | "updateMany", true => do
    let _ ← Prog.each arg.list fun a =>
      match rt.whereMany child (a.get "where"), rt.ops child (a.get "data") with
      | some hit, some ops =>
        if (a.get "data").hasOnly (child.fields.map (·.col.key)) then
          sqlUpdate child (fun r => hit r && related r) ops
        else .throw .validation
      | _, _ => .throw .validation
  | "deleteMany", true => do
    let _ ← Prog.each arg.list fun w =>
      match rt.whereMany child w with
      | some hit => sqlDelete child fun r => hit r && related r
      | none => .throw .validation
  | _, _ => .throw .validation

/-- A to-many relation in `data`: its verbs, in the order given. -/
def Runtime.childVerbs (child : Model) (fk : ForeignKey) (parent : Value) (inUpdate : Bool) :
    Js → Nested Unit
  | .undefined => return ()
  | .obj verbs => do
    let _ ← Prog.each verbs fun v => rt.childVerb rec child fk parent inUpdate v.1 v.2
  | _ => .throw .validation

end

/-- A create or an update with everything nested in it: the records it refers to
first, then the record itself, then the records that refer to it. The number is how
deep `data` may be nested. -/
def Runtime.perform (rt : Runtime) : ℕ → Job → Nested Row
  | 0, _ => .throw .validation
  | n + 1, .create m links hidden data =>
    if m.accepts hidden data then do
      let parents ← Prog.each m.foreignKeys fun fk =>
        rt.parentOfCreate (rt.perform n) fk (data.get fk.field)
      match rt.newRow m (links ++ parents.flatten) data with
      | none => .throw .validation
      | some r => do
        let r ← sqlInsert m r
        let _ ← Prog.each m.children fun child =>
          rt.childVerbs (rt.perform n) child.1 child.2 (r .id) false (data.get child.2.back)
        return r
    else .throw .validation
  | n + 1, .update m row hidden data =>
    if m.accepts hidden data then do
      match rt.ops m data with
      | none => .throw .validation
      | some ops => do
        let parents ← Prog.each m.foreignKeys fun fk =>
          rt.parentOfUpdate (rt.perform n) fk (((m.field? fk.col).map (·.optional)).getD false)
            row (data.get fk.field)
        let ops := ops ++ parents.flatten.map fun link => (link.1, .set link.2)
        let _ ← sqlUpdate m (hasId (row .id)) ops
        let row := (applyOps ops row).getD row
        let _ ← Prog.each m.children fun child =>
          rt.childVerbs (rt.perform n) child.1 child.2 (row .id) true (data.get child.2.back)
        return row
    else .throw .validation

end EngineeringLab.FinanceTracker
