/-
Requests with a body, as they arrive.

Nothing validates a body: there is no pipe in `main.ts`, the declared types are gone at
run time, and the services hand the object on as Prisma's `data`. So a body is any `Js`
value here. Five routes update rows of one table by `updateMany`, which takes scalar
fields only; what such a request can do is rewrite the one row it selects
(`Rewrites`). `PUT /households` and the four plain creates also carry out whatever is
nested in the body, and that is for `NestedWrites`.

The where clause of these five routes is built by the service, from the id in the path and
the household, and the body has no part in it. So a request reaches one row at most, and a
body that Prisma refuses reaches none. What it then writes is the body's scalar fields, each
as Prisma reads it for its column; a field that is absent stays as it is.

When Prisma takes the body and the row is there, the tables afterwards are a function of the
row and the body (`answer_rewrites`), and nothing but that row and what refers to its id has
changed.
-/
import EngineeringLab.FinanceTracker.NestedWrites
import EngineeringLab.FinanceTracker.Operations

set_option autoImplicit false

open Concurrency

namespace EngineeringLab.FinanceTracker

/-! ## Requests -/

/-- The controllers with a `POST` and a `PUT /:id`. -/
inductive Route where
  | users | accounts | categories | budgets | transactions
  deriving DecidableEq, Repr

def Route.model : Route → Model
  | users => .user
  | accounts => .account
  | categories => .category
  | budgets => .budget
  | transactions => .transaction

def Route.operation : Route → CrudOperation → Operation
  | users => .users
  | accounts => .accounts
  | categories => .categories
  | budgets => .budgets
  | transactions => .transactions

/-- `PUT /<route>/:id` and `PUT /households`. -/
inductive UpdateRequest where
  | item (route : Route) (id : ℤ) (body : Js)
  | household (body : Js)

namespace UpdateRequest

def operation : UpdateRequest → Operation
  | item route id body => route.operation (.update id body)
  | household body => .updateHousehold body

def model : UpdateRequest → Model
  | item route _ _ => route.model
  | household _ => .household

/-- The `where` of the service. -/
def selection (H : ℤ) : UpdateRequest → Where
  | item _ id _ => ownRow id H
  | household _ => [(.id, .int H)]

/-- The `data` of the service: the body, but for the date of a transaction. -/
def data (rt : Runtime) : UpdateRequest → Js
  | item .transactions _ body => body.assign "date"
    (if (body.get "date").truthy then .date (rt.newDate (body.get "date")) else .undefined)
  | item _ _ body => body
  | household body => body

/-- The call that the service makes. -/
def call (rt : Runtime) (H : ℤ) (q : UpdateRequest) : Call :=
  match q with
  | item .. => .updateMany q.model (q.selection H) (q.data rt)
  | household _ => .update q.model (q.selection H) (q.data rt)

/-- Does the request write more than scalar fields of the rows that it selects? Only
`update` takes nested writes. -/
def nested : UpdateRequest → Bool
  | item .. => false
  | household body => !body.hasOnly (Model.scalarKeys .household)

/-- The row id that the `where` asks for. -/
def rowId (H : ℤ) : UpdateRequest → ℤ
  | item _ id _ => id
  | household _ => H

end UpdateRequest

section

variable {rt : Runtime} {app : App} {H : ℤ} {db db' : Db} {m : Model}

/-- Every update is its one call. -/
theorem UpdateRequest.always_iff {q : UpdateRequest} {Q : Db → Prop} :
    (q.operation.body rt app H).Always rt.Exec db (fun _ db' => Q db') ↔
      ∀ r db', rt.Exec db (q.call rt H) r db' → Q db' := by
  cases q with
  | item route id body => cases route <;> exact discard_call_always
  | household body => exact discard_call_always

/-! ## Rewriting a row -/

/-- Prisma takes scalar `data` on the selected row, which becomes `row'`, and the tables
with it satisfy the constraints. -/
structure Rewrites (rt : Runtime) (t : Tables) (m : Model) (w : Where) (data : Js)
    (row row' : Row) : Prop where
  scalars : data.hasOnly m.scalarKeys = true
  mem : row ∈ t m
  selected : ∃ hit, rt.condition m w = some hit ∧ hit row = true
  ops : ∃ ops, rt.ops m data = some ops ∧ applyOps ops row = some row'
  valid : Valid (t.updated m (hasId (row .id)) fun _ => row')

/-- The body has the column as a field, and what it says there would give the row another
value. -/
def Reassigns (rt : Runtime) (m : Model) (data : Js) (row : Row) (c : Col) : Prop :=
  ∃ f op v, m.field? c = some f ∧ rt.readOp f (data.get c.key) = some (some op) ∧
    op.apply (row c) = some v ∧ v ≠ row c

theorem Rewrites.reassigns_iff {t : Tables} {w : Where} {data : Js} {row row' : Row}
    (h : Rewrites rt t m w data row row') {c : Col} :
    Reassigns rt m data row c ↔ row' c ≠ row c := by
  obtain ⟨ops, hops, happly⟩ := h.ops
  constructor
  · rintro ⟨f, op, v, hf, hread, hv, hne⟩
    obtain ⟨op', hread', hchange⟩ := Runtime.ops_apply hops happly hf
    cases hread.symm.trans hread'
    rwa [Option.some.inj (hchange.symm.trans hv)]
  · intro hne
    cases hf : m.field? c with
    | none => exact absurd (Runtime.ops_of_no_field hops happly hf) hne
    | some f =>
        obtain ⟨op, hread, hchange⟩ := Runtime.ops_apply hops happly hf
        cases op with
        | none => exact absurd hchange hne
        | some op => exact ⟨f, op, row' c, hf, hread, hchange, hne⟩

/-- A `where` that asks for an id selects one row at most. -/
theorem hit_iff_hasId {w : Where} {z : ℤ} (hw : (Col.id, Js.int z) ∈ w) {hit : Row → Bool}
    (hcond : rt.condition m w = some hit) {row : Row} (hrow : row ∈ db.rows m)
    (hhit : hit row = true) : ∀ r ∈ db.rows m, hit r = hasId (row .id) r := by
  have hf : m.field? .id = some (.required .id .int) := by cases m <;> rfl
  have hid := Runtime.condition_int hcond hhit hw hf rfl
  intro r hr
  rw [Bool.eq_iff_iff]
  constructor
  · intro hr'
    simp [hasId, hid, Runtime.condition_int hcond hr' hw hf rfl]
  · intro hr'
    have heq : r = row := db.valid.eq_of_id hr hrow (by simpa [hasId] using hr')
    rwa [heq]

/-- The tables that an update of the selected row leaves. -/
theorem Updated.rewrites {w : Where} {hit : Row → Bool} {data : Js} {row : Row}
    (h : Updated rt m hit data db db') (hdata : data.hasOnly m.scalarKeys = true)
    (hselected : ∃ hit, rt.condition m w = some hit ∧ hit row = true) (hrow : row ∈ db.rows m)
    (hhit : ∀ r ∈ db.rows m, hit r = hasId (row .id) r) :
    ∃ row', Rewrites rt db.rows m w data row row' ∧
      db'.rows = db.rows.updated m (hasId (row .id)) fun _ => row' := by
  obtain ⟨ops, hops, hall, hrows⟩ := h.ops
  obtain ⟨row', hrow'⟩ := hall row hrow (by simp [hhit row hrow, hasId])
  have hupdated : db'.rows = db.rows.updated m (hasId (row .id)) fun _ => row' := by
    rw [hrows]
    refine Tables.updated_congr fun r hr => ⟨hhit r hr, fun hr' => ?_⟩
    have heq : r = row := db.valid.eq_of_id hr hrow (by simpa [hhit r hr, hasId] using hr')
    rw [heq, hrow']
    rfl
  exact ⟨row', ⟨hdata, hrow, hselected, ⟨ops, hops, hrow'⟩, hupdated ▸ db'.valid⟩, hupdated⟩

/-- An `updateMany` of one row leaves the tables, or rewrites the row. -/
theorem Runtime.Exec.updateMany_rewrites {w : Where} {z : ℤ} (hw : (Col.id, Js.int z) ∈ w)
    {data : Js} {r : Except PrismaError ℕ} (h : rt.Exec db (.updateMany m w data) r db') :
    db'.rows = db.rows ∨ ∃ row row', Rewrites rt db.rows m w data row row' ∧
      db'.rows = db.rows.updated m (hasId (row .id)) fun _ => row' := by
  rcases h.updateMany with ⟨e, -, hrows⟩ | ⟨n, hit, hcond, -, hdata, hupd⟩
  · exact .inl hrows
  · by_cases hsome : ∃ row ∈ db.rows m, hit row = true
    · obtain ⟨row, hrow, hhit⟩ := hsome
      obtain ⟨row', hrewrites⟩ := hupd.rewrites hdata ⟨hit, hcond, hhit⟩ hrow
        (hit_iff_hasId hw hcond hrow hhit)
      exact .inr ⟨row, row', hrewrites⟩
    · obtain ⟨ops, -, -, hrows⟩ := hupd.ops
      refine .inl (hrows.trans (Tables.updated_none fun row hrow => ?_))
      by_contra hhit
      exact hsome ⟨row, hrow, by simpa using hhit⟩

/-- The same for an `update` by scalar fields. -/
theorem Runtime.Exec.update_rewrites {w : Where} {data : Js}
    (hdata : data.hasOnly m.scalarKeys = true) {r : Except PrismaError Row}
    (h : rt.Exec db (.update m w data) r db') :
    db'.rows = db.rows ∨ ∃ row row', Rewrites rt db.rows m w data row row' ∧
      db'.rows = db.rows.updated m (hasId (row .id)) fun _ => row' := by
  rcases h.update hdata with ⟨e, -, hrows⟩ | ⟨row, hit, hcond, hrow, hhit, hupd⟩
  · exact .inl hrows
  · obtain ⟨row', hrewrites⟩ := hupd.rewrites hdata ⟨hit, hcond, hhit⟩ hrow fun _ _ => rfl
    exact .inr ⟨row, row', hrewrites⟩

/-- A statement that the constraints allow goes through. -/
theorem Sql.exec_update {hit : Row → Bool} {ops : List (Col × ScalarOp)} {f : Row → Row}
    (hf : ∀ r ∈ db.rows m, hit r = true → applyOps ops r = some (f r))
    (hvalid : Valid (db.rows.updated m hit f)) :
    ∃ n db', Sql.exec (.update m hit ops) db = (.ok n, db') ∧
      db'.rows = db.rows.updated m hit f := by
  have hsame : db.rows.updated m hit (fun r => (applyOps ops r).getD r) =
      db.rows.updated m hit f := by
    refine Tables.updated_congr fun r hr => ⟨rfl, fun hhit => ?_⟩
    rw [hf r hr hhit]
    rfl
  have hall : ((db.rows m).all fun r => !hit r || (applyOps ops r).isSome) = true := by
    refine List.all_eq_true.mpr fun r hr => ?_
    by_cases hhit : hit r = true
    · simp [hhit, hf r hr hhit]
    · simp [hhit]
  refine ⟨(db.rows m).countP hit, ⟨_, db.seq, hvalid⟩, ?_, rfl⟩
  simp only [Sql.exec, hall, if_true, Db.update, hsame, Db.commit_of_valid _ hvalid]

theorem Rewrites.apply {w : Where} {data : Js} {row row' : Row}
    (h : Rewrites rt db.rows m w data row row') {hit : Row → Bool}
    (hhit : ∀ r ∈ db.rows m, hit r = hasId (row .id) r) : ∃ ops n db₁, rt.ops m data = some ops ∧
      Sql.exec (.update m hit ops) db = (.ok n, db₁) ∧
        db₁.rows = db.rows.updated m (hasId (row .id)) fun _ => row' := by
  obtain ⟨ops, hops, happly⟩ := h.ops
  have hsame : db.rows.updated m hit (fun _ => row') =
      db.rows.updated m (hasId (row .id)) fun _ => row' :=
    Tables.updated_congr fun r hr => ⟨hhit r hr, fun _ => rfl⟩
  have hf : ∀ r ∈ db.rows m, hit r = true → applyOps ops r = some row' := by
    intro r hr hr'
    have heq : r = row := db.valid.eq_of_id hr h.mem (by simpa [hhit r hr, hasId] using hr')
    rw [heq, happly]
  obtain ⟨n, db₁, hexec, hrows⟩ := Sql.exec_update hf (hsame ▸ h.valid)
  exact ⟨ops, n, db₁, hops, hexec, hrows.trans hsame⟩

theorem sqlUpdate_run_ok {hit : Row → Bool} {ops : List (Col × ScalarOp)} {n : ℕ}
    (h : Sql.exec (.update m hit ops) db = (.ok n, db')) :
    (sqlUpdate m hit ops).run Sql.exec db = (.ok n, db') := by
  simp only [sqlUpdate, Prog.run_call, h, Prog.run_ret]

/-- A row that can be rewritten is. -/
theorem Rewrites.answer_updateMany {w : Where} {z : ℤ} (hw : (Col.id, Js.int z) ∈ w) {data : Js}
    {row row' : Row} (h : Rewrites rt db.rows m w data row row') :
    (rt.answer (.updateMany m w data) db).2.rows =
      db.rows.updated m (hasId (row .id)) fun _ => row' := by
  obtain ⟨hit, hcond, hhit⟩ := h.selected
  obtain ⟨ops, n, db₁, hops, hexec, hrows⟩ := h.apply (hit_iff_hasId hw hcond h.mem hhit)
  have hscalars : data.hasOnly (m.fields.map (·.col.key)) = true := h.scalars
  simp only [Runtime.answer, Runtime.selecting, hcond, transaction, Runtime.updateManyProgram, hops,
    hscalars, if_true, sqlUpdate_run_ok hexec]
  exact hrows

theorem Rewrites.answer_update {w : Where} {z : ℤ} (hw : (Col.id, Js.int z) ∈ w) {data : Js}
    {row row' : Row} (h : Rewrites rt db.rows m w data row row') :
    (rt.answer (.update m w data) db).2.rows =
      db.rows.updated m (hasId (row .id)) fun _ => row' := by
  obtain ⟨hit, hcond, hhit⟩ := h.selected
  obtain ⟨ops, n, db₁, hops, hexec, hrows⟩ := h.apply fun _ _ => rfl
  obtain ⟨first, rows, hfirst⟩ : ∃ first rows, (db.rows m).filter hit = first :: rows :=
    List.exists_cons_of_ne_nil (List.ne_nil_of_mem (List.mem_filter.mpr ⟨h.mem, hhit⟩))
  have hsame : first = row := by
    have hmem := List.mem_filter.mp (hfirst ▸ List.mem_cons_self : first ∈ (db.rows m).filter hit)
    have hid := hit_iff_hasId hw hcond h.mem hhit first hmem.1
    exact db.valid.eq_of_id hmem.1 h.mem (by simpa [hasId, hmem.2] using hid.symm)
  subst hsame
  simp only [Runtime.answer, Runtime.selecting, hcond, transaction, Runtime.updateProgram,
    Prog.run_bind, sqlSelect, Prog.run_call, Prog.run_ret, Sql.exec, hfirst,
    Runtime.perform_update_scalars h.scalars, hops, sqlUpdate_run_ok hexec]
  exact hrows

/-! ## Rewriting ids -/

/-- An id that a row is given was not the id of another. -/
theorem Rewrites.fresh_id {t : Tables} {w : Where} {data : Js} {row row' : Row}
    (h : Rewrites rt t m w data row row') (hne : row' .id ≠ row .id) :
    ∀ s ∈ t m, s .id ≠ row' .id := by
  intro s hs hid
  have hother : s ≠ row := by
    rintro rfl
    exact hne hid.symm
  have hkey := h.valid.key m
  rw [Tables.updated_eq, List.pairwise_map] at hkey
  have hsymm : Std.Symm fun r s : Row =>
      t.updatedRow m (hasId (row .id)) (fun _ => row') m r .id ≠
        t.updatedRow m (hasId (row .id)) (fun _ => row') m s .id := ⟨fun _ _ h => h.symm⟩
  refine hkey.forall hs h.mem hother ?_
  rw [Tables.updatedRow_id, Tables.updatedRow_id]
  simp [hasId, hid, hne]

/-! ## Updates by scalar fields -/

namespace UpdateRequest

variable {q : UpdateRequest}

theorem scalars_of_flat {body : Js} (hq : (household body).nested = false) :
    body.hasOnly (Model.scalarKeys .household) = true := by
  simpa [nested] using hq

theorem rowId_mem (q : UpdateRequest) (H : ℤ) : (Col.id, Js.int (q.rowId H)) ∈ q.selection H := by
  cases q <;> exact List.mem_cons_self

/-- An update that is not nested leaves the tables, or rewrites the row that it selects. -/
theorem exec_rewrites (hq : q.nested = false) {r : Answer (q.call rt H)}
    (h : rt.Exec db (q.call rt H) r db') : db'.rows = db.rows ∨
      ∃ row row', Rewrites rt db.rows q.model (q.selection H) (q.data rt) row row' ∧
        db'.rows = db.rows.updated q.model (hasId (row .id)) fun _ => row' := by
  cases q with
  | item route id body => exact h.updateMany_rewrites (rowId_mem _ H)
  | household body => exact h.update_rewrites (scalars_of_flat hq)

theorem answer_rewrites {row row' : Row}
    (h : Rewrites rt db.rows q.model (q.selection H) (q.data rt) row row') :
    (rt.answer (q.call rt H) db).2.rows =
      db.rows.updated q.model (hasId (row .id)) fun _ => row' := by
  cases q with
  | item route id body => exact h.answer_updateMany (rowId_mem _ H)
  | household body => exact h.answer_update (rowId_mem _ H)

/-- It inserts nothing. -/
theorem not_inserts (hq : q.nested = false) (db : Db) (m : Model) (v : Value) :
    ¬ Inserts (rt.statements (q.call rt H) db) m v := by
  have hleaves : ∀ m data, Policy.noInsert.leaves m data = true := fun m data => by
    simp [Policy.leaves, Policy.noInsert]
  refine @FinanceTracker.not_inserts rt _ ?_ m v
  cases q with
  | item route id body => exact Policy.statements_updateMany (hleaves _ _)
  | household body =>
      exact Policy.statements_update
        (Policy.allows_scalars (scalars_of_flat hq) (hleaves _ _))

end UpdateRequest

end

end EngineeringLab.FinanceTracker
