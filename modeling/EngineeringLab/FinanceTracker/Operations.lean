/-
The operations of the services with arguments of their declared types, and the
statements that each one makes for its household (`Operation.writes`).

`data` is declared by the properties that it may have. Two operations reach beyond
their household and are stated apart: `unassignRole` finds the assignment without the
household, and the deletion of a category sets references to it to null wherever they are.

The controllers declare the types of their bodies, and here the bodies have these types.
That is the world in which the services were written; what happens when a body has others,
or more properties than declared, is in `FinanceTracker.Bodies` and the modules that build
on it.

For each operation one lemma lists what its calls may do (`writes`): which model a row is
added to, that it belongs to the household, which rows an update or a delete selects. The
list is a relation between the tables before and after a call, so any order of operations,
and any interleaving of their calls, is a path of such steps. Isolation, references and
spending are proved for the steps, and never look into a service again.

The listener that counts expenses belongs to the operation that publishes the event: its
calls are part of the operation's own (`Operation.writes` of a transaction that is created).
-/
import EngineeringLab.FinanceTracker.Escalation
import EngineeringLab.FinanceTracker.Tenancy

set_option autoImplicit false

open Concurrency

namespace EngineeringLab.FinanceTracker

/-! ## Declared types -/

inductive TsType where
  | number | string
  deriving DecidableEq, Repr

def Js.is : TsType → Js → Bool
  | .number, .num _ => true
  | .string, .str _ => true
  | _, _ => false

/-- A property of an object type: `name: type`, or `name?: type`. -/
structure Property where
  name : String
  type : TsType
  optional : Bool

/-- Is `data` an object of the type with these properties? -/
def Js.hasType (data : Js) (properties : List Property) : Bool :=
  data.hasOnly (properties.map (·.name)) && properties.all fun p =>
    (p.optional && !(data.get p.name).isDefined) || (data.get p.name).is p.type

namespace AccountsService
def CreateData : List Property := [⟨"name", .string, false⟩, ⟨"balance", .number, true⟩]
def UpdateData : List Property := [⟨"name", .string, true⟩, ⟨"balance", .number, true⟩]
end AccountsService

namespace TransactionsService
def CreateData : List Property :=
  [⟨"amount", .number, false⟩, ⟨"description", .string, false⟩, ⟨"date", .string, false⟩,
    ⟨"accountId", .number, false⟩, ⟨"categoryId", .number, true⟩]
def UpdateData : List Property :=
  [⟨"amount", .number, true⟩, ⟨"description", .string, true⟩, ⟨"date", .string, true⟩,
    ⟨"categoryId", .number, true⟩]
end TransactionsService

namespace CategoriesService
def CreateData : List Property := [⟨"name", .string, false⟩]
def UpdateData : List Property := [⟨"name", .string, true⟩]
end CategoriesService

namespace BudgetsService
def CreateData : List Property := [⟨"categoryId", .number, false⟩, ⟨"monthlyLimit", .number, false⟩]
def UpdateData : List Property :=
  [⟨"categoryId", .number, true⟩, ⟨"monthlyLimit", .number, true⟩, ⟨"currentSpent", .number, true⟩]
end BudgetsService

namespace UsersService
def CreateData : List Property := [⟨"email", .string, false⟩, ⟨"name", .string, false⟩]
def UpdateData : List Property := [⟨"email", .string, true⟩, ⟨"name", .string, true⟩]
end UsersService

namespace HouseholdsService
def UpdateData : List Property := [⟨"name", .string, true⟩]
end HouseholdsService

theorem Js.hasType_only {data : Js} {properties : List Property}
    (h : data.hasType properties = true) : data.hasOnly (properties.map (·.name)) = true :=
  (Bool.and_eq_true _ _ ▸ h : _ ∧ _).1

/-- A property that is not declared is absent. -/
theorem Js.get_of_hasType {data : Js} {properties : List Property}
    (h : data.hasType properties = true) {key : String} (hkey : key ∉ properties.map (·.name)) :
    data.get key = .undefined :=
  Js.get_of_hasOnly (Js.hasType_only h) hkey

/-- A property is absent, or a number if it is declared so. -/
theorem Js.number_of_hasType {data : Js} {properties : List Property}
    (h : data.hasType properties = true) {key : String}
    (hkey : ∀ p ∈ properties, p.name = key → p.type = .number) :
    data.get key = .undefined ∨ ∃ q, data.get key = .num q := by
  by_cases hmem : key ∈ properties.map (·.name)
  · obtain ⟨p, hp, rfl⟩ := List.mem_map.mp hmem
    have hall := (Bool.and_eq_true _ _ ▸ h : _ ∧ _).2
    have hprop := List.all_eq_true.mp hall p hp
    rw [hkey p hp rfl] at hprop
    cases hget : data.get p.name with
    | undefined => exact .inl rfl
    | num q => exact .inr ⟨q, rfl⟩
    | _ => simp [hget, Js.is, Js.isDefined] at hprop
  · exact .inl (Js.get_of_hasType h hmem)

theorem Js.required_of_hasType {data : Js} {properties : List Property}
    (h : data.hasType properties = true) {p : Property} (hp : p ∈ properties)
    (hrequired : p.optional = false) : (data.get p.name).is p.type = true := by
  have hall := (Bool.and_eq_true _ _ ▸ h : _ ∧ _).2
  have hprop := List.all_eq_true.mp hall p hp
  simpa [hrequired] using hprop

/-! ## Operations -/

/-- The operations that the services of accounts, transactions, categories, budgets and
users have in common. -/
inductive CrudOperation where
  | create (data : Js)
  | findAll
  | findOne (id : ℤ)
  | update (id : ℤ) (data : Js)
  | remove (id : ℤ)

def CrudOperation.hasTypes (createData updateData : List Property) : CrudOperation → Bool
  | create data => data.hasType createData
  | update _ data => data.hasType updateData
  | _ => true

/-- An operation of a service with all arguments but the household. -/
inductive Operation where
  | accounts (op : CrudOperation)
  | transactions (op : CrudOperation)
  | categories (op : CrudOperation)
  | budgets (op : CrudOperation)
  | users (op : CrudOperation)
  | findHousehold
  | updateHousehold (data : Js)
  | removeHousehold
  | findRoles
  | findRole (id : ℤ)
  | createRole (actorUserId : ℤ) (name : String) (permissions : List String)
  | updateRole (id actorUserId : ℤ) (name : Option String) (permissions : Option (List String))
  | removeRole (id : ℤ)
  | assignRole (roleId userId actorUserId : ℤ)
  | unassignRole (roleId userId : ℤ)
  | syncTransactions (accountId : ℤ) (dateRange : Option (String × String))

/-- The arguments are of the declared types. -/
def Operation.hasTypes : Operation → Bool
  | accounts op => op.hasTypes AccountsService.CreateData AccountsService.UpdateData
  | transactions op => op.hasTypes TransactionsService.CreateData TransactionsService.UpdateData
  | categories op => op.hasTypes CategoriesService.CreateData CategoriesService.UpdateData
  | budgets op => op.hasTypes BudgetsService.CreateData BudgetsService.UpdateData
  | users op => op.hasTypes UsersService.CreateData UsersService.UpdateData
  | updateHousehold data => data.hasType HouseholdsService.UpdateData
  | _ => true

/-- A service method whose result is of no interest. -/
def discard {α : Type} (p : Service α) : Service Unit := p >>= fun _ => .ret ()

/-- What the application has configured: the registered permissions and the bank adapters. -/
structure App where
  registry : PermissionRegistry
  adapters : List BankAdapter

section

variable (rt : Runtime) (app : App) (householdId : ℤ)

def CrudOperation.accounts : CrudOperation → Service Unit
  | create data => discard (AccountsService.create householdId data)
  | findAll => discard (AccountsService.findAll householdId)
  | findOne id => discard (AccountsService.findOne householdId (.int id))
  | update id data => discard (AccountsService.update householdId id data)
  | remove id => discard (AccountsService.remove householdId id)

def CrudOperation.transactions : CrudOperation → Service Unit
  | create data => discard (TransactionsService.create rt budgetsBus householdId data)
  | findAll => discard (TransactionsService.findAll householdId)
  | findOne id => discard (TransactionsService.findOne householdId id)
  | update id data => discard (TransactionsService.update rt householdId id data)
  | remove id => discard (TransactionsService.remove householdId id)

def CrudOperation.categories : CrudOperation → Service Unit
  | create data => discard (CategoriesService.create householdId data)
  | findAll => discard (CategoriesService.findAll householdId)
  | findOne id => discard (CategoriesService.findOne householdId id)
  | update id data => discard (CategoriesService.update householdId id data)
  | remove id => discard (CategoriesService.remove householdId id)

def CrudOperation.budgets : CrudOperation → Service Unit
  | create data => discard (BudgetsService.create householdId data)
  | findAll => discard (BudgetsService.findAll householdId)
  | findOne id => discard (BudgetsService.findOne householdId id)
  | update id data => discard (BudgetsService.update householdId id data)
  | remove id => discard (BudgetsService.remove householdId id)

def CrudOperation.users : CrudOperation → Service Unit
  | create data => discard (UsersService.create householdId data)
  | findAll => discard (UsersService.findAll householdId)
  | findOne id => discard (UsersService.findOne householdId id)
  | update id data => discard (UsersService.update householdId id data)
  | remove id => discard (UsersService.remove householdId id)

def Operation.body : Operation → Service Unit
  | accounts op => op.accounts householdId
  | transactions op => op.transactions rt householdId
  | categories op => op.categories householdId
  | budgets op => op.budgets householdId
  | users op => op.users householdId
  | findHousehold => discard (HouseholdsService.findOne householdId)
  | updateHousehold data => discard (HouseholdsService.update householdId data)
  | removeHousehold => discard (HouseholdsService.remove householdId)
  | findRoles => discard (RolesService.findAll householdId)
  | findRole id => discard (RolesService.findOne householdId id)
  | createRole actorUserId name permissions =>
    discard (RolesService.create app.registry householdId actorUserId name permissions)
  | updateRole id actorUserId name permissions =>
    discard (RolesService.update app.registry householdId id actorUserId name permissions)
  | removeRole id => discard (RolesService.remove householdId id)
  | assignRole roleId userId actorUserId =>
    discard (RolesService.assignRole app.registry householdId roleId userId actorUserId)
  | unassignRole roleId userId => discard (RolesService.unassignRole householdId roleId userId)
  | syncTransactions accountId dateRange =>
    discard (FinanceTracker.syncTransactions rt app.adapters householdId accountId dateRange)

/-- One operation of some household, run to its end. -/
def OperationStep (db db' : Db) : Prop :=
  ∃ (H : ℤ) (op : Operation) (o : Except ServiceError Unit), op.hasTypes = true ∧
    (op.body rt app H).Ends rt.Exec db o db'

end

/-- The category id in the `data` of an operation, if there is one. -/
def CrudOperation.categoryId : CrudOperation → Js
  | create data => data.get "categoryId"
  | update _ data => data.get "categoryId"
  | _ => .undefined

def Operation.categoryId : Operation → Js
  | accounts op => op.categoryId
  | transactions op => op.categoryId
  | categories op => op.categoryId
  | budgets op => op.categoryId
  | users op => op.categoryId
  | _ => .undefined

/-- Does the value name a category, as a column value? A number is read with its fraction cut
off. -/
def Js.names (js : Js) (v : Value) : Prop := ∃ z, js.int? = some z ∧ v = .int z

/-! ## The statements of each call -/

section

variable {rt : Runtime} {app : App} {H : ℤ} {names : Value → Prop} {db db' : Db} {m : Model}

theorem Model.tenant_fields (hm : m.tenant = true) :
    m.field? .id = some (.required .id .int) ∧
      m.field? .householdId = some (.required .householdId .int) := by
  cases m <;> first | exact ⟨rfl, rfl⟩ | exact absurd hm (by decide)

/-- A reference to a category is an integer column. -/
theorem Model.categoryId_int {f : Field} (hf : m.field? .categoryId = some f) : f.type = .int := by
  cases m <;> first | (cases hf; rfl) | cases hf

theorem TenantWrites.of_rows (h : db'.rows = db.rows) : TenantWrites H names db.rows db'.rows :=
  h ▸ .refl

theorem TenantWrites.one {t : Tables} (h : db'.rows = t) (hw : TenantWrite H names db.rows t) :
    TenantWrites H names db.rows db'.rows :=
  .single ⟨h ▸ hw, db'.valid⟩

/-- A create of a row of `H` by scalar fields. -/
theorem Runtime.Exec.create_tenant {data : Js} {r : Except PrismaError Row}
    (h : rt.Exec db (.create m data) r db') (hm : m.tenant = true)
    (hdata : data.hasOnly m.scalarKeys = true) (hH : data.get "householdId" = Js.int H)
    (haccount : m = .transaction → ∃ z, (data.get "accountId").int? = some z ∧
      ∃ a ∈ db.rows .account, a .id = .int z ∧ a .householdId = .int H)
    (hnames : ∀ z, (data.get "categoryId").int? = some z → names (.int z)) :
    TenantWrites H names db.rows db'.rows ∧ ∀ m', m' ≠ m → db'.rows m' = db.rows m' := by
  rcases h.create hdata with ⟨e, -, hrows⟩ | ⟨new, row, hnew, -, hins⟩
  · exact ⟨.of_rows hrows, fun m' _ => by rw [hrows]⟩
  · refine ⟨?_, fun m' hm' => by rw [hins.rows, Function.update_of_ne hm']⟩
    refine .one hins.rows (.insert hm ?_ ?_ ?_)
    · rw [hins.cols _ (by decide)]
      exact Runtime.newRow_int hnew (c := .householdId) (Model.tenant_fields hm).2 rfl hH
    · -- a transaction names an account, by assumption one of the household
      rintro rfl
      obtain ⟨z, hz, a, ha, hid, hown⟩ := haccount rfl
      refine ⟨a, ha, ?_, hown⟩
      rw [hid, hins.cols _ (by decide)]
      exact (Runtime.newRow_number hnew (c := .accountId) rfl rfl hz).symm
    · -- a category is not looked up: the row names what the `data` names, if anything
      intro hcat
      rw [hins.cols _ (by decide)]
      obtain ⟨f, hf, ht, hid, hdefault⟩ : ∃ f, m.field? .categoryId = some f ∧ f.type = .int ∧
          f.col ≠ .id ∧ f.default = none := by
        rcases hcat with rfl | rfl
        · exact ⟨.nullable .categoryId .int, rfl, rfl, by decide, rfl⟩
        · exact ⟨.required .categoryId .int, rfl, rfl, by decide, rfl⟩
      rcases Runtime.createValue_reference ht hid hdefault (Runtime.newRow_value hnew hf) with
        hnull | ⟨z, hz, hv⟩
      · exact .inl hnull
      · exact .inr (hv ▸ hnames z hz)

/-- The new value of a reference that is set to a number. -/
theorem Runtime.readOp_number {f : Field} (ht : f.type = .int) {q : ℚ} {op : Option ScalarOp}
    (h : rt.readOp f (.num q) = some op) :
    ∃ z, (Js.num q).int? = some z ∧ op = some (.set (.int z)) := by
  simp only [Runtime.readOp, Runtime.readNullable, ht, Option.map_eq_some_iff] at h
  obtain ⟨_, ⟨v, hv, rfl⟩, rfl⟩ := h
  obtain ⟨z, hz, rfl⟩ := Runtime.read_int_eq hv
  exact ⟨z, hz, rfl⟩

/-- An `updateMany` of a service, by `data` without ids and households. -/
theorem Runtime.Exec.updateMany_tenant {id : ℤ} {data : Js} {r : Except PrismaError ℕ}
    (h : rt.Exec db (.updateMany m (ownRow id H) data) r db') (hm : m.tenant = true)
    (hid : data.get "id" = .undefined) (hhousehold : data.get "householdId" = .undefined)
    (haccount : data.get "accountId" = .undefined)
    (hcategory : data.get "categoryId" = .undefined ∨ ∃ q, data.get "categoryId" = .num q)
    (hnames : ∀ z, (data.get "categoryId").int? = some z → names (.int z)) :
    TenantWrites H names db.rows db'.rows := by
  rcases h.updateMany with ⟨e, -, hrows⟩ | ⟨n, hit, hcond, -, -, hupd⟩
  · exact .of_rows hrows
  · obtain ⟨hfid, hfhousehold⟩ := Model.tenant_fields hm
    obtain ⟨f, hrows, hf⟩ := hupd.map hid
    refine .one hrows (.change hm fun row hrow => ?_)
    by_cases hhit : hit row = true
    · obtain ⟨ops, hops, happly⟩ := (hf row hrow).2 hhit
      have hown := (condition_ownRow hcond hhit hfid hfhousehold).2
      have hkeeps : ∀ c, data.get c.key = .undefined → f row c = row c :=
        fun c hc => Runtime.ops_of_undefined hops happly hc
      refine .inr ⟨hown, (hkeeps .householdId hhousehold).trans hown, hkeeps .id hid,
        hkeeps .accountId haccount, ?_⟩
      -- the category is the one reference that an update may set
      rcases hcategory with hnone | ⟨q, hq⟩
      · exact .inl (hkeeps .categoryId hnone)
      · cases hfield : m.field? .categoryId with
        | none => exact .inl (Runtime.ops_of_no_field hops happly hfield)
        | some g =>
            obtain ⟨op, hop, hchange⟩ := Runtime.ops_apply hops happly hfield
            rw [show Col.key .categoryId = "categoryId" from rfl, hq] at hop
            obtain ⟨z, hz, rfl⟩ := Runtime.readOp_number (Model.categoryId_int hfield) hop
            refine .inr (.inr ?_)
            rw [← Option.some.inj hchange]
            exact hnames z (hq ▸ hz)
    · exact .inl ((hf row hrow).1 (by simpa using hhit))

theorem Runtime.Exec.deleteMany_tenant {id : ℤ} {r : Except PrismaError ℕ}
    (h : rt.Exec db (.deleteMany m (ownRow id H)) r db') (hm : m.tenant = true)
    (hcategory : m ≠ .category) : TenantWrites H names db.rows db'.rows := by
  rcases h.deleteMany_filter hcategory with hrows | ⟨hit, hcond, hrows⟩
  · exact .of_rows hrows
  · refine .one hrows (.remove fun row hrow hgone k hown => ?_)
    obtain ⟨hfid, hfhousehold⟩ := Model.tenant_fields hm
    have hH := (condition_ownRow hcond (by simpa using hgone) hfid hfhousehold).2
    exact int_inj hH ((Tables.owns_tenant hm).mp hown)

/-- An update of the row with an id that is a row of `H`. -/
theorem Runtime.Exec.update_tenant {z : ℤ} {data : Js} {r : Except PrismaError Row}
    (h : rt.Exec db (.update m [(.id, .int z)] data) r db') (hm : m.tenant = true)
    (hdata : data.hasOnly m.scalarKeys = true)
    (hrow : ∀ row ∈ db.rows m, row .id = .int z → row .householdId = .int H)
    (hkeys : ∀ key ∈ ["id", "householdId", "accountId", "categoryId"], data.get key = .undefined) :
    TenantWrites H names db.rows db'.rows := by
  rcases h.update hdata with ⟨e, -, hrows⟩ | ⟨target, hit, hcond, htarget, hhit, hupd⟩
  · exact .of_rows hrows
  · have hint : target .id = .int z :=
      Runtime.condition_int hcond hhit (c := .id) List.mem_cons_self (Model.tenant_fields hm).1 rfl
    obtain ⟨f, hrows, hf⟩ := hupd.map (hkeys _ (by simp))
    refine .one hrows (.change hm fun row hmem => ?_)
    by_cases hthis : hasId (target .id) row = true
    · obtain ⟨ops, hops, happly⟩ := (hf row hmem).2 hthis
      have hkeeps : ∀ c, data.get c.key = .undefined → f row c = row c :=
        fun c hc => Runtime.ops_of_undefined hops happly hc
      have hown := hrow row hmem (by simpa [hasId, hint] using hthis)
      exact .inr ⟨hown, (hkeeps .householdId (hkeys _ (by simp [Col.key]))).trans hown,
        hkeeps .id (hkeys _ (by simp [Col.key])), hkeeps .accountId (hkeys _ (by simp [Col.key])),
        .inl (hkeeps .categoryId (hkeys _ (by simp [Col.key])))⟩
    · exact .inl ((hf row hmem).1 (by simpa using hthis))

/-! ## The statements of each operation -/

theorem discard_always {α : Type} {step : Db → (c : Call) → Answer c → Db → Prop} {p : Service α}
    {Q : Db → Prop} (h : p.Always step db fun _ db' => Q db') :
    (discard p).Always step db fun _ db' => Q db' := by
  refine Prog.Always.bind (h.mono fun o db' hq => ?_)
  cases o <;> exact hq

/-- A service that makes one call and returns what it gets. -/
theorem discard_call_always {c : Call} {α : Type} {answer : Answer c → Except PrismaError α}
    {Q : Db → Prop} :
    (discard (Prog.call c fun r => awaited (answer r) : Service α)).Always rt.Exec db
      (fun _ db' => Q db') ↔ ∀ r db', rt.Exec db c r db' → Q db' := by
  constructor
  · intro h r db' hexec
    have hend := h r db' hexec
    dsimp only at hend
    cases hanswer : answer r with
    | ok a => rwa [hanswer] at hend
    | error e => rwa [hanswer] at hend
  · intro h
    refine discard_always (awaited_always fun r db' hexec => h r db' hexec)

/-- The reads of a service write nothing. -/
theorem findMany_writes {w : Where} {incl : Include} :
    (discard (findMany m w incl)).Always rt.Exec db
      fun _ db' => TenantWrites H names db.rows db'.rows :=
  discard_always (findMany_always (fun _ => .refl) fun _ _ => .refl)

theorem findFirst_writes {w : Where} {incl : Include} :
    (discard (findFirst m w incl)).Always rt.Exec db
      fun _ db' => TenantWrites H names db.rows db'.rows :=
  discard_always (findFirst_always (fun _ => .refl) .refl fun _ _ _ _ _ => .refl)

/-- The declared types of a service that hands `data` on to the columns of its model: no
ids of other records but the category's, and that is a number. -/
def Model.plain (m : Model) (createData updateData : List Property) : Bool :=
  m.tenant && m ≠ .transaction && m.scalarKeys.contains "householdId" &&
    (createData.all fun p => m.scalarKeys.contains p.name) &&
    updateData.all fun p => !(["id", "householdId", "accountId"].contains p.name) &&
      (p.name ≠ "categoryId" || p.type = .number)

variable {createData updateData : List Property}

theorem Model.plain_iff : m.plain createData updateData = true ↔
    m.tenant = true ∧ m ≠ .transaction ∧ "householdId" ∈ m.scalarKeys ∧
      (∀ p ∈ createData, p.name ∈ m.scalarKeys) ∧
      ∀ p ∈ updateData, p.name ∉ ["id", "householdId", "accountId"] ∧
        (p.name = "categoryId" → p.type = .number) := by
  simp only [Model.plain, Bool.and_eq_true, decide_eq_true_eq, List.all_eq_true,
    Bool.not_eq_true', Bool.or_eq_true, Decidable.imp_iff_not_or, ne_eq,
    and_assoc, List.contains_eq_mem, decide_eq_false_iff_not]

theorem create_writes (hm : m.plain createData updateData = true) {data : Js}
    (hdata : data.hasType createData = true) :
    (discard (FinanceTracker.create m (data.assign "householdId" (.int H)))).Always rt.Exec db
      fun _ db' => TenantWrites H (data.get "categoryId").names db.rows db'.rows := by
  obtain ⟨htenant, htransaction, hhousehold, hscalars, -⟩ := Model.plain_iff.mp hm
  have honly : data.hasOnly m.scalarKeys = true := by
    refine Js.hasOnly_mono (Js.hasType_only hdata) fun key hkey => ?_
    obtain ⟨p, hp, rfl⟩ := List.mem_map.mp hkey
    exact hscalars p hp
  have hobj := Js.eq_obj_of_hasOnly honly
  refine discard_always (create_always fun r db' h => (h.create_tenant htenant ?_ ?_ ?_ ?_).1)
  · exact Js.hasOnly_assign (hobj.symm ▸ honly) hhousehold
  · exact Js.get_assign_self _ _ _
  · exact fun heq => absurd heq htransaction
  · intro z hz
    rw [Js.get_assign_of_ne _ _ (by decide), hobj] at hz
    exact ⟨z, hz, rfl⟩

/-- An `updateMany` by a typed `data` that leaves ids alone. -/
theorem updateMany_writes (hm : m.tenant = true) {id : ℤ} {data : Js}
    (hkeys : ∀ key ∈ ["id", "householdId", "accountId"], data.get key = .undefined)
    (hcategory : data.get "categoryId" = .undefined ∨ ∃ q, data.get "categoryId" = .num q) :
    (discard (updateMany m (ownRow id H) data)).Always rt.Exec db
      fun _ db' => TenantWrites H (data.get "categoryId").names db.rows db'.rows :=
  discard_always (updateMany_always fun _ _ h => h.updateMany_tenant hm (hkeys _ (by simp))
    (hkeys _ (by simp)) (hkeys _ (by simp)) hcategory fun z hz => ⟨z, hz, rfl⟩)

theorem update_writes (hm : m.plain createData updateData = true) {id : ℤ} {data : Js}
    (hdata : data.hasType updateData = true) :
    (discard (updateMany m (ownRow id H) data)).Always rt.Exec db
      fun _ db' => TenantWrites H (data.get "categoryId").names db.rows db'.rows := by
  obtain ⟨htenant, -, -, -, hkeys⟩ := Model.plain_iff.mp hm
  refine updateMany_writes htenant (fun key hkey => Js.get_of_hasType hdata fun hmem => ?_) ?_
  · obtain ⟨p, hp, rfl⟩ := List.mem_map.mp hmem
    exact (hkeys p hp).1 hkey
  · exact Js.number_of_hasType hdata fun p hp => (hkeys p hp).2

theorem remove_writes (hm : m.tenant = true) (hcategory : m ≠ .category) {id : ℤ} :
    (discard (deleteMany m (ownRow id H))).Always rt.Exec db
      fun _ db' => TenantWrites H names db.rows db'.rows :=
  discard_always (deleteMany_always fun _ _ h => h.deleteMany_tenant hm hcategory)

section

variable {op : CrudOperation}

/-! Accounts, categories, budgets and users. -/

theorem CrudOperation.accounts_writes
    (hop : op.hasTypes AccountsService.CreateData AccountsService.UpdateData = true) :
    (op.accounts H).Always rt.Exec db
      fun _ db' => TenantWrites H op.categoryId.names db.rows db'.rows := by
  have hplain :
      Model.plain .account AccountsService.CreateData AccountsService.UpdateData = true := by
    decide
  cases op with
  | create data => exact create_writes hplain hop
  | findAll => exact findMany_writes
  | findOne id => exact findFirst_writes
  | update id data => exact update_writes hplain hop
  | remove id => exact remove_writes (by decide) (by decide)

/-- The deletion of a category is stated apart. -/
theorem CrudOperation.categories_writes
    (hop : op.hasTypes CategoriesService.CreateData CategoriesService.UpdateData = true)
    (hremove : ∀ id, op ≠ .remove id) :
    (op.categories H).Always rt.Exec db
      fun _ db' => TenantWrites H op.categoryId.names db.rows db'.rows := by
  have hplain : Model.plain .category CategoriesService.CreateData
      CategoriesService.UpdateData = true := by
    decide
  cases op with
  | create data => exact create_writes hplain hop
  | findAll => exact findMany_writes
  | findOne id => exact findFirst_writes
  | update id data => exact update_writes hplain hop
  | remove id => exact absurd rfl (hremove id)

theorem CrudOperation.budgets_writes
    (hop : op.hasTypes BudgetsService.CreateData BudgetsService.UpdateData = true) :
    (op.budgets H).Always rt.Exec db
      fun _ db' => TenantWrites H op.categoryId.names db.rows db'.rows := by
  have hplain : Model.plain .budget BudgetsService.CreateData BudgetsService.UpdateData = true := by
    decide
  cases op with
  | create data => exact create_writes hplain hop
  | findAll => exact findMany_writes
  | findOne id => exact findFirst_writes
  | update id data => exact update_writes hplain hop
  | remove id => exact remove_writes (by decide) (by decide)

theorem CrudOperation.users_writes
    (hop : op.hasTypes UsersService.CreateData UsersService.UpdateData = true) :
    (op.users H).Always rt.Exec db
      fun _ db' => TenantWrites H op.categoryId.names db.rows db'.rows := by
  have hplain : Model.plain .user UsersService.CreateData UsersService.UpdateData = true := by
    decide
  cases op with
  | create data => exact create_writes hplain hop
  | findAll => exact findMany_writes
  | findOne id => exact findFirst_writes
  | update id data => exact update_writes hplain hop
  | remove id => exact remove_writes (by decide) (by decide)

end

/-! Transactions, and the listener to their event. -/

/-- The writes of a part, and of what comes after it. -/
theorem writes_bind {α β : Type} {p : Service α} {f : α → Service β}
    (hp : p.Always rt.Exec db fun _ db' => TenantWrites H names db.rows db'.rows)
    (hf : ∀ a db', TenantWrites H names db.rows db'.rows →
      (f a).Always rt.Exec db' fun _ db'' => TenantWrites H names db'.rows db''.rows) :
    (p >>= f).Always rt.Exec db fun _ db' => TenantWrites H names db.rows db'.rows :=
  Prog.Always.bind_rel (fun s t : Db => TenantWrites H names s.rows t.rows)
    (fun h h' => h.trans h') hp hf

/-- The listener writes to a budget of the event's household. -/
theorem TransactionCreatedListener.handle_writes {event : DomainEvent}
    (hH : event.householdId = H) : (handle event).Always rt.Exec db
      fun _ db' => TenantWrites H names db.rows db'.rows := by
  unfold handle
  by_cases htruthy : event.categoryId.toJs.truthy = true
  · rw [if_pos htruthy]
    refine Prog.Always.bind (findFirst_always (fun _ => .refl) .refl ?_)
    intro hit budget hcond hbudget hhit
    have hown : budget .householdId = .int H := by
      rw [hH] at hcond
      exact Runtime.condition_int hcond hhit (c := .householdId) List.mem_cons_self rfl rfl
    obtain ⟨z, hz, -⟩ := db.valid.id_int hbudget
    refine writes_bind (update_always fun r db' h => ?_) fun _ _ _ => .refl
    rw [show (db.rows.entity .budget [] budget).row = budget from rfl, hz] at h
    refine h.update_tenant rfl rfl (fun row hrow hid => ?_) ?_
    · rwa [db.valid.eq_of_id hrow hbudget (hid.trans hz.symm)]
    · intro key hkey
      simp only [List.mem_cons, List.not_mem_nil, or_false] at hkey
      rcases hkey with rfl | rfl | rfl | rfl <;> rfl
  · rw [if_neg htruthy]
    exact .refl

/-- The `where` of the flag service; a number that does not fit is rejected. -/
theorem condition_flag (rt : Runtime) (householdId : ℤ) (moduleName : String) :
    rt.condition .featureFlag [(.householdId, .int householdId), (.moduleName, .str moduleName)] =
      if int4 householdId = true then
        some fun r => r .householdId = .int householdId && r .moduleName = .string moduleName
      else none := by
  have hhousehold := rt.columnCondition_int (f := .required .householdId .int) rfl householdId
  by_cases h4 : int4 householdId = true
  · rw [if_pos h4] at hhousehold ⊢
    rw [Runtime.condition_cons rfl hhousehold (Runtime.condition_cons
      (f := .required .moduleName .string) rfl rfl rfl)]
    simp
  · rw [if_neg h4] at hhousehold ⊢
    have hfield : Model.field? .featureFlag .householdId = some (.required .householdId .int) := rfl
    unfold Runtime.condition
    rw [hfield, Option.bind_some, hhousehold]

theorem isModuleEnabled_always {householdId : ℤ} {moduleName : String}
    {Q : Except ServiceError Bool → Db → Prop} (h : ∀ o, Q o db) :
    (isModuleEnabled householdId moduleName).Always rt.Exec db Q :=
  Prog.Always.bind (findFirst_always (fun _ => h _) (h _) fun _ _ _ _ _ => h _)

/-- The one subscriber to new transactions. -/
theorem subscribers_created {event : DomainEvent} (hname : event.name = transactionCreated) :
    (budgetsBus.filter (·.1 = event.name)).map (·.2) =
      [⟨some "budgets", TransactionCreatedListener.handle⟩] := by
  simp [budgetsBus, hname]

/-- What the listener keeps, publishing keeps. -/
theorem EventBus.publish_rel (rel : Db → Db → Prop) (hrefl : ∀ s, rel s s)
    (htrans : ∀ {s s' s''}, rel s s' → rel s' s'' → rel s s'') {event : DomainEvent}
    (hhandle : ∀ s, (TransactionCreatedListener.handle event).Always rt.Exec s
      fun _ s' => rel s s') :
    (budgetsBus.publish event).Always rt.Exec db fun _ db' => rel db db' := by
  refine Prog.Always.bind ?_
  refine (Prog.Always.each (fun db' : Db => rel db db') (hrefl db) ?_).mono fun o db' h => ?_
  · intro subscriber hsub db₁ hw
    have hhandler : subscriber = ⟨some "budgets", TransactionCreatedListener.handle⟩ := by
      obtain ⟨entry, hentry, rfl⟩ := List.mem_map.mp hsub
      rw [List.mem_singleton.mp (List.mem_of_mem_filter hentry)]
    subst hhandler
    refine Prog.Always.bind (isModuleEnabled_always fun o => ?_)
    cases o with
    | error e => exact hw
    | ok enabled =>
        cases enabled with
        | false => exact hw
        | true =>
            -- the listener's exceptions are caught
            refine Prog.Always.tryCatch ((hhandle db₁).mono fun o db₂ hw₂ => ?_)
            cases o <;> exact htrans hw hw₂
  · cases o <;> exact h

theorem EventBus.publish_writes {event : DomainEvent} (hH : event.householdId = H) :
    (budgetsBus.publish event).Always rt.Exec db
      fun _ db' => TenantWrites H names db.rows db'.rows :=
  EventBus.publish_rel (fun s t : Db => TenantWrites H names s.rows t.rows) (fun _ => .refl)
    (fun h h' => h.trans h') fun _ => TransactionCreatedListener.handle_writes hH

theorem TransactionsService.create_writes {data : Js}
    (hdata : data.hasType TransactionsService.CreateData = true) :
    (TransactionsService.create rt budgetsBus H data).Always rt.Exec db
      fun _ db' => TenantWrites H (data.get "categoryId").names db.rows db'.rows := by
  have haccountId := Js.required_of_hasType hdata (p := ⟨"accountId", .number, false⟩)
    (by simp [TransactionsService.CreateData]) rfl
  obtain ⟨q, hq⟩ : ∃ q, data.get "accountId" = .num q := by
    cases hget : data.get "accountId" with
    | num q => exact ⟨q, rfl⟩
    | _ => rw [hget] at haccountId; cases haccountId
  refine Prog.Always.bind (findFirst_always (fun _ => .refl) .refl ?_)
  intro hit account hcond haccount hhit
  rw [hq] at hcond
  obtain ⟨z, hz, hid⟩ := Runtime.condition_number hcond hhit (c := .id) List.mem_cons_self rfl rfl
  have hown := Runtime.condition_int hcond hhit (c := .householdId)
    (List.mem_cons_of_mem _ List.mem_cons_self) rfl rfl
  refine writes_bind (create_always fun r db' h => (h.create_tenant rfl rfl rfl ?_ ?_).1) ?_
  · exact fun _ => ⟨z, hq ▸ hz, account, haccount, hid, hown⟩
  · exact fun z hz => ⟨z, hz, rfl⟩
  · intro row db' _
    exact writes_bind (EventBus.publish_writes rfl) fun _ _ _ => .refl

theorem CrudOperation.transactions_writes {op : CrudOperation}
    (hop : op.hasTypes TransactionsService.CreateData TransactionsService.UpdateData = true) :
    (op.transactions rt H).Always rt.Exec db
      fun _ db' => TenantWrites H op.categoryId.names db.rows db'.rows := by
  cases op with
  | create data => exact discard_always (TransactionsService.create_writes hop)
  | findAll => exact findMany_writes
  | findOne id => exact findFirst_writes
  | update id data =>
      -- the date is replaced, everything else is handed on
      have hobj := Js.eq_obj_of_hasOnly (Js.hasType_only hop)
      have hget : ∀ v key, key ≠ "date" → (data.assign "date" v).get key = data.get key := by
        intro v key hkey
        rw [Js.get_assign_of_ne _ _ hkey, hobj]
      simp only [CrudOperation.categoryId]
      rw [← hget _ "categoryId" (by decide)]
      refine updateMany_writes rfl (fun key hkey => ?_) ?_
      · have hne : key ≠ "date" ∧ key ∉ TransactionsService.UpdateData.map (·.name) := by
          revert key; decide
        rw [hget _ key hne.1]
        exact Js.get_of_hasType hop hne.2
      · rw [hget _ _ (by decide)]
        exact Js.number_of_hasType hop (by decide)
  | remove id => exact remove_writes (by decide) (by decide)

/-! The household, its roles and the bank sync. -/

theorem HouseholdsService.update_writes {data : Js}
    (hdata : data.hasType HouseholdsService.UpdateData = true) :
    (HouseholdsService.update H data).Always rt.Exec db
      fun _ db' => TenantWrites H names db.rows db'.rows := by
  have hscalars : data.hasOnly (Model.scalarKeys .household) = true :=
    Js.hasOnly_mono (Js.hasType_only hdata) (by decide)
  have hid : data.get "id" = .undefined := Js.get_of_hasType hdata (by decide)
  refine update_always fun r db' h => ?_
  rcases h.update hscalars with ⟨e, -, hrows⟩ | ⟨target, hit, hcond, -, hhit, hupd⟩
  · exact .of_rows hrows
  · have hint : target .id = .int H :=
      Runtime.condition_int hcond hhit (c := .id) List.mem_cons_self rfl rfl
    obtain ⟨f, hrows, hf⟩ := hupd.map hid
    refine .one hrows (.rename fun row hrow => ?_)
    by_cases hthis : hasId (target .id) row = true
    · obtain ⟨ops, hops, happly⟩ := (hf row hrow).2 hthis
      have hsame : f row .id = row .id := Runtime.ops_of_undefined hops happly hid
      have hH : row .id = .int H := by simpa [hasId, hint] using hthis
      exact .inr ⟨hH, hsame.trans hH⟩
    · exact .inl ((hf row hrow).1 (by simpa using hthis))

/-- A deletion of the rows with an id that is a row of `H`. -/
theorem delete_writes {z : ℤ} (hm : m ≠ .category) (hf : m.field? .id = some (.required .id .int))
    (hown : ∀ row ∈ db.rows m, row .id = .int z → ∀ k, db.rows.Owns k m row → k = H) :
    (FinanceTracker.delete m [(.id, .int z)]).Always rt.Exec db
      fun _ db' => TenantWrites H names db.rows db'.rows := by
  refine delete_always fun r db' h => ?_
  rcases h.delete_filter hm with hrows | ⟨row, hit, hcond, -, hhit, hrows⟩
  · exact .of_rows hrows
  · have hint := Runtime.condition_int hcond hhit (c := .id) List.mem_cons_self hf rfl
    refine .one hrows (.remove fun row' hrow' hgone => hown row' hrow' ?_)
    simpa [hasId, hint] using hgone

theorem RolesService.create_writes {registry : PermissionRegistry} {actorUserId : ℤ} {name : String}
    {permissions : List String} :
    (RolesService.create registry H actorUserId name permissions).Always rt.Exec db
      fun _ db' => TenantWrites H names db.rows db'.rows := by
  refine Prog.Always.bind (RolesService.validatePermissionKeys_always (fun _ => .refl) ?_)
  refine Prog.Always.bind (RolesService.checkDelegation_always (fun _ => .refl) fun _ => ?_)
  refine create_always fun r db' h => ?_
  rcases RolesService.create_call h with hrows | ⟨row, hcreated⟩
  · exact .of_rows hrows
  · refine .one hcreated.rows (.insert rfl hcreated.household (fun h => by cases h) fun h => ?_)
    rcases h with h | h <;> cases h

theorem RolesService.update_writes {registry : PermissionRegistry} {id actorUserId : ℤ}
    {name : Option String} {permissions : Option (List String)} :
    (RolesService.update registry H id actorUserId name permissions).Always rt.Exec db
      fun _ db' => TenantWrites H names db.rows db'.rows := by
  refine Prog.Always.bind (RolesService.findOne_always (fun _ => .refl) ?_)
  intro existing hrole hid hH
  -- The write, which both checks lead to: one row changes, and it is the role that was found.
  have hwrite : (FinanceTracker.update .customRole [(.id, .int id)]
      (RolesService.updateData name permissions)).Always rt.Exec db
        fun _ db' => TenantWrites H names db.rows db'.rows := by
    refine update_always fun r db' h => ?_
    rcases RolesService.update_call h with hrows | ⟨f, hchanged⟩
    · exact .of_rows hrows
    · refine .one hchanged.rows (.change rfl fun row hrow => ?_)
      by_cases hthis : row .id = .int id
      · have heq : row = existing.row := db.valid.eq_of_id hrow hrole (hthis.trans hid.symm)
        have hkeeps := hchanged.keeps row hrow
        have hown : row .householdId = .int H := heq ▸ hH
        exact .inr ⟨hown, (hkeeps _ (by decide) (by decide)).trans hown,
          hkeeps _ (by decide) (by decide), hkeeps _ (by decide) (by decide),
          .inl (hkeeps _ (by decide) (by decide))⟩
      · exact .inl (hchanged.other row hrow hthis)
  cases permissions with
  | none => exact hwrite
  | some l =>
      refine Prog.Always.bind (RolesService.validatePermissionKeys_always (fun _ => .refl) ?_)
      dsimp only
      split
      · exact Prog.Always.bind
          (RolesService.checkDelegation_always (fun _ => .refl) fun _ => hwrite)
      · exact hwrite

theorem RolesService.remove_writes {id : ℤ} : (RolesService.remove H id).Always rt.Exec db
    fun _ db' => TenantWrites H names db.rows db'.rows := by
  refine Prog.Always.bind (RolesService.findOne_always (fun _ => .refl) ?_)
  intro role hrole hid hH
  -- the role is the household's, and so is every assignment of it
  have hassignments : (deleteMany .userRoleAssignment [(.roleId, .int id)]).Always rt.Exec db
      fun _ db' => TenantWrites H names db.rows db'.rows ∧
        db'.rows .customRole = db.rows .customRole := by
    refine deleteMany_always fun r db' h => ?_
    rcases h.deleteMany_filter (by decide) with hrows | ⟨hit, hcond, hrows⟩
    · exact ⟨.of_rows hrows, by rw [hrows]⟩
    · refine ⟨?_, by rw [hrows, Function.update_of_ne (by decide)]⟩
      refine .one hrows (.remove fun a ha hgone k hown => ?_)
      have hroleId := Runtime.condition_int hcond (r := a) (by simpa using hgone) (c := .roleId)
        List.mem_cons_self rfl rfl
      obtain ⟨role', hrole', hid', hk⟩ := hown
      have heq : role' = role.row := db.valid.eq_of_id hrole' hrole (by rw [hid', hroleId, hid])
      exact int_inj hH (heq ▸ hk)
  refine Prog.Always.bind (hassignments.mono fun o db' hw => ?_)
  cases o with
  | error e => exact hw.1
  | ok n =>
      refine (delete_writes (by decide) rfl ?_).mono fun o db'' hw' => hw.1.trans hw'
      intro row hrow hrow_id k hown
      rw [hw.2] at hrow
      have heq : row = role.row := db.valid.eq_of_id hrow hrole (hrow_id.trans hid.symm)
      exact int_inj hH (heq ▸ hown)

theorem RolesService.assignRole_writes {registry : PermissionRegistry}
    {roleId userId actorUserId : ℤ} :
    (RolesService.assignRole registry H roleId userId actorUserId).Always rt.Exec db
      fun _ db' => TenantWrites H names db.rows db'.rows := by
  refine Prog.Always.bind (RolesService.findOne_always (fun _ => .refl) ?_)
  intro role hrole hid hH
  refine Prog.Always.bind (findFirst_always (fun _ => .refl) .refl fun _ _ _ _ _ => ?_)
  refine Prog.Always.bind (RolesService.checkDelegation_always (fun _ => .refl) fun _ => ?_)
  refine create_always fun r db' h => ?_
  rcases RolesService.assign_call h with hrows | ⟨row, hassigned⟩
  · exact .of_rows hrows
  · refine .one hassigned.rows (.assign fun k hown => ?_)
    obtain ⟨role', hrole', hid', hk⟩ := hown
    have heq : role' = role.row :=
      db.valid.eq_of_id hrole' hrole (by rw [hid', hassigned.role, hid])
    exact int_inj hH (heq ▸ hk)

/-- The loop of a sync: every transaction that it creates is on the account that was
found, which stays. -/
theorem sync_each_writes {account : Row} {z : ℤ} (hz : account .id = .int z)
    (haccount : account ∈ db.rows .account) (hown : account .householdId = .int H)
    (l : List BankTransaction) :
    (Prog.each l fun txn => FinanceTracker.create .transaction (.obj [
      ("amount", .num txn.amount),
      ("description", .str txn.description),
      ("date", .date txn.date),
      ("accountId", .int z),
      ("householdId", .int H)])).Always rt.Exec db
        fun _ db' => TenantWrites H names db.rows db'.rows := by
  refine (Prog.Always.each (fun db' : Db => TenantWrites H names db.rows db'.rows ∧
    account ∈ db'.rows .account) ⟨.refl, haccount⟩ ?_).mono fun _ _ h => h.1
  rintro txn - db₁ ⟨hw, hmem⟩
  refine create_always fun r db₂ h => ?_
  have hstep : TenantWrites H names db₁.rows db₂.rows ∧
      ∀ m', m' ≠ .transaction → db₂.rows m' = db₁.rows m' := by
    refine h.create_tenant rfl rfl rfl ?_ fun z hz => ?_
    · exact fun _ => ⟨z, Js.int?_int z, account, hmem, hz, hown⟩
    · cases hz
  exact ⟨hw.trans hstep.1, by rw [hstep.2 _ (by decide)]; exact hmem⟩

/-- The calls of a sync: it reads the account, the clock and the bank, and creates transactions. -/
theorem syncTransactions_obeys {P : Call → Prop} {adapters : List BankAdapter} {accountId : ℤ}
    {dateRange : Option (String × String)}
    (hfind : P (.findFirst .account (ownRow accountId H) [])) (hnow : P .dateNow)
    (hfetch : ∀ adapter text start stop, P (.fetchTransactions adapter text start stop))
    (hcreate : ∀ (account : Entity) (txn : BankTransaction), P (.create .transaction (.obj [
      ("amount", .num txn.amount),
      ("description", .str txn.description),
      ("date", .date txn.date),
      ("accountId", (account.row .id).toJs),
      ("householdId", .int H)]))) :
    (syncTransactions rt adapters H accountId dateRange).Obeys P fun _ => True := by
  have hadapter : ∀ bankName, (getAdapter adapters bankName).Obeys P fun _ => True := by
    intro bankName
    unfold getAdapter
    dsimp only
    cases adapters.find? _ <;> trivial
  -- what comes after the dates are known
  have hsync : ∀ (adapter : BankAdapter) (account : Entity) (start stop : Option ℤ),
      (fetchTransactions adapter.name (rt.text (account.row .id).toJs) start stop >>=
        fun bankTransactions => Prog.each bankTransactions (fun txn =>
          FinanceTracker.create .transaction (.obj [
            ("amount", .num txn.amount),
            ("description", .str txn.description),
            ("date", .date txn.date),
            ("accountId", (account.row .id).toJs),
            ("householdId", .int H)])) >>= fun synced =>
        Prog.ret (SyncResult.mk (account.row .id) (rt.text (account.row .bankName).toJs)
          synced.length start stop)).Obeys P fun _ => True := by
    intro adapter account start stop
    refine Prog.Obeys.bind (Q := fun _ => True) ⟨hfetch _ _ _ _, fun r => ?_⟩ fun l _ => ?_
    · cases r <;> trivial
    · refine Prog.Obeys.bind (Prog.Obeys.each (Q := fun _ _ => True) fun txn _ => ?_)
        fun synced _ => trivial
      exact call_obeys (hcreate account txn)
  have hclock : ∀ {f : ℤ → Option ℤ} {next : Option ℤ → Service SyncResult},
      (∀ start, (next start).Obeys P fun _ => True) →
        ((dateNow >>= fun now => pure (f now)) >>= next).Obeys P fun _ => True :=
    fun h => ⟨hnow, fun _ => h _⟩
  refine Prog.Obeys.bind (call_obeys hfind) fun account _ => ?_
  cases account with
  | none => trivial
  | some account =>
      show Prog.Obeys _ _ (if _ then _ else _)
      split
      · refine Prog.Obeys.bind (hadapter _) fun adapter _ => ?_
        rcases dateRange with _ | ⟨start, stop⟩
        · exact hclock fun _ => hclock fun _ => hsync adapter account _ _
        · -- either end of the range may be missing
          dsimp only
          split
          · show Prog.Obeys _ _ (if _ then _ else _)
            split
            · exact hsync adapter account _ _
            · exact hclock fun _ => hsync adapter account _ _
          · refine hclock fun _ => ?_
            split
            · exact hsync adapter account _ _
            · exact hclock fun _ => hsync adapter account _ _
      · trivial

/-- The rule for a sync, over any way to carry out its calls: what the account was found
with is kept while the clock is read, and then comes the loop. -/
theorem syncTransactions_always {σ : Type} {step : σ → (c : Call) → Answer c → σ → Prop} {s : σ}
    {adapters : List BankAdapter} {accountId : ℤ} {dateRange : Option (String × String)}
    {Q : Except ServiceError SyncResult → σ → Prop} (I : Entity → σ → Prop)
    (hfind : (findFirst .account (ownRow accountId H) []).Always step s fun o s' => match o with
      | .ok (some account) => I account s'
      | .ok none => ∀ e, Q (.error e) s'
      | .error e => Q (.error e) s')
    (herror : ∀ account s e, I account s → Q (.error e) s)
    (hnow : ∀ account s t s', I account s → step s .dateNow t s' → I account s')
    (hsync : ∀ account s adapter start stop, I account s →
      (fetchTransactions adapter (rt.text (account.row .id).toJs) start stop >>=
        fun bankTransactions => Prog.each bankTransactions (fun txn =>
          FinanceTracker.create .transaction (.obj [
            ("amount", .num txn.amount),
            ("description", .str txn.description),
            ("date", .date txn.date),
            ("accountId", (account.row .id).toJs),
            ("householdId", .int H)])) >>= fun synced =>
        Prog.ret (SyncResult.mk (account.row .id) (rt.text (account.row .bankName).toJs)
          synced.length start stop)).Always step s Q) :
    (syncTransactions rt adapters H accountId dateRange).Always step s Q := by
  refine Prog.Always.bind (hfind.mono fun o s' ho => ?_)
  rcases o with e | _ | account
  · exact ho
  · exact ho _
  · show Prog.Always step (if _ then _ else _) s' _
    split
    · unfold getAdapter
      refine Prog.Always.bind ?_
      dsimp only
      cases adapters.find? _ with
      | none => exact herror account s' _ ho
      | some adapter =>
          -- A bound that the request leaves out is read off the clock.
          have hclock : ∀ {s₁ : σ} {f : ℤ → Option ℤ} {k : Option ℤ → Service SyncResult},
              I account s₁ → (∀ start s₂, I account s₂ → (k start).Always step s₂ Q) →
              ((dateNow >>= fun now => pure (f now)) >>= k).Always step s₁ Q :=
            fun hI h t s₂ hstep => h _ _ (hnow account _ t s₂ hI hstep)
          simp only [Prog.pure_eq, Prog.Always]
          rcases dateRange with _ | ⟨start, stop⟩
          · exact hclock ho fun _ _ h => hclock h fun _ _ h => hsync account _ adapter.name _ _ h
          · dsimp only
            split
            · refine Prog.Always.bind ?_
              simp only [Prog.Always]
              split
              · exact hsync account _ adapter.name _ _ ho
              · exact hclock ho fun _ _ h => hsync account _ adapter.name _ _ h
            · refine hclock ho fun _ _ h => ?_
              split
              · exact hsync account _ adapter.name _ _ h
              · exact hclock h fun _ _ h => hsync account _ adapter.name _ _ h
    · exact herror account s' _ ho

theorem syncTransactions_writes {adapters : List BankAdapter} {accountId : ℤ}
    {dateRange : Option (String × String)} :
    (syncTransactions rt adapters H accountId dateRange).Always rt.Exec db
      fun _ db' => TenantWrites H names db.rows db'.rows := by
  refine syncTransactions_always (fun account db' => db' = db ∧ account.row ∈ db.rows .account ∧
    account.row .householdId = .int H) (findFirst_always (fun _ => .refl) (fun _ => .refl) ?_)
    ?_ ?_ ?_
  · intro hit row hcond hrow hhit
    exact ⟨rfl, hrow, (condition_ownRow hcond hhit rfl rfl).2⟩
  · rintro account db' e ⟨rfl, -⟩
    exact .refl
  · rintro account db' t db'' ⟨rfl, haccount⟩ hnow
    refine ⟨?_, haccount⟩
    cases hnow with
    | answered => rfl
    | unreachable h => cases h
    | now => rfl
  · rintro account db' adapter start stop ⟨rfl, hrow, hown⟩
    obtain ⟨z, hz, -⟩ := db'.valid.id_int hrow
    rw [hz]
    refine Prog.Always.bind (fetchTransactions_always (fun _ => .refl) fun l => ?_)
    exact writes_bind (sync_each_writes hz hrow hown l) fun _ _ _ => .refl

/-! Every operation but two. -/

/-- The operations whose statements are on rows of the household. -/
def Operation.confined : Operation → Bool
  | categories (.remove _) => false
  | unassignRole _ _ => false
  | _ => true

theorem Operation.writes {op : Operation} (hop : op.hasTypes = true)
    (hconfined : op.confined = true) :
    (op.body rt app H).Always rt.Exec db
      fun _ db' => TenantWrites H op.categoryId.names db.rows db'.rows := by
  cases op with
  | accounts op => exact op.accounts_writes hop
  | transactions op => exact op.transactions_writes hop
  | categories op =>
      refine op.categories_writes hop fun id heq => ?_
      subst heq
      cases hconfined
  | budgets op => exact op.budgets_writes hop
  | users op => exact op.users_writes hop
  | findHousehold => exact findFirst_writes
  | updateHousehold data => exact discard_always (HouseholdsService.update_writes hop)
  | removeHousehold =>
      exact discard_always (delete_writes (by decide) rfl fun row _ hid k hown => int_inj hid hown)
  | findRoles => exact findMany_writes
  | findRole id =>
      exact discard_always (RolesService.findOne_always (fun _ => .refl) fun _ _ _ _ => .refl)
  | createRole actorUserId name permissions => exact discard_always RolesService.create_writes
  | updateRole id actorUserId name permissions => exact discard_always RolesService.update_writes
  | removeRole id => exact discard_always RolesService.remove_writes
  | assignRole roleId userId actorUserId => exact discard_always RolesService.assignRole_writes
  | unassignRole roleId userId => cases hconfined
  | syncTransactions accountId dateRange => exact discard_always syncTransactions_writes

end

end EngineeringLab.FinanceTracker
