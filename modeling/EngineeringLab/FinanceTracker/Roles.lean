/-
The requests of the roles service, and what each call that it makes does to the
tables: a role is appended, a role keeps its id and household while its name or
permissions change, rows go away, an assignment is appended.

Each request of the roles controller that may write is a program of Prisma calls
(`RolesRequest.body`). Where the proofs about roles differ is in what may happen between the
calls: nothing for requests that run one at a time, anything for requests that interleave.
What is common to them is here, and is about single calls.

A user's effective permissions are a set that the tables determine (`effectivePermissions`);
the call that reads them answers with its members and no others
(`mem_effectivePermissions`). The writes are records of what is different afterwards:
`Created` for a new role, `Changed` for an update, `Assigned` for an assignment. Each says
which table has changed, how, and that the others have not, so the proofs that follow never
look at SQL again.

A program all of whose calls have a property is shown to have it method by method, with the
property as a parameter (`create_obeys` and its siblings).
-/
import EngineeringLab.FinanceTracker.Effects
import EngineeringLab.FinanceTracker.Services
import Mathlib.Data.Set.Basic

set_option autoImplicit false

open Concurrency

namespace EngineeringLab.FinanceTracker

/-- A request to the roles service that may write, with the arguments the controller
hands on. -/
inductive RolesRequest where
  | create (householdId actorUserId : ℤ) (name : String) (permissions : List String)
  | update (householdId id actorUserId : ℤ) (name : Option String)
      (permissions : Option (List String))
  | remove (householdId id : ℤ)
  | assignRole (householdId roleId userId actorUserId : ℤ)
  | unassignRole (householdId roleId userId : ℤ)
  deriving DecidableEq

/-- The actor, for the requests that the service passes one to. -/
def RolesRequest.actorUserId : RolesRequest → Option ℤ
  | create _ actorUserId _ _ => some actorUserId
  | update _ _ actorUserId _ _ => some actorUserId
  | assignRole _ _ _ actorUserId => some actorUserId
  | _ => none

def RolesRequest.body (registry : PermissionRegistry) : RolesRequest → Service Row
  | create householdId actorUserId name permissions =>
    RolesService.create registry householdId actorUserId name permissions
  | update householdId id actorUserId name permissions =>
    RolesService.update registry householdId id actorUserId name permissions
  | remove householdId id => RolesService.remove householdId id
  | assignRole householdId roleId userId actorUserId =>
    RolesService.assignRole registry householdId roleId userId actorUserId
  | unassignRole householdId roleId userId =>
    RolesService.unassignRole householdId roleId userId

/-! ## What a user effectively has -/

/-- The permissions that `getEffectivePermissions` gives for a user. -/
def effectivePermissions (rt : Runtime) (db : Db) (userId : ℤ) : Set String :=
  {p | ∃ l db', (getEffectivePermissions userId).Ends rt.Exec db (.ok l) db' ∧ p ∈ l}

section

variable {rt : Runtime} {db db' : Db}

/-- A condition that asks for an integer in one column. -/
theorem condition_column (rt : Runtime) {m : Model} {c : Col}
    (hf : m.field? c = some (.required c .int)) (z : ℤ) :
    rt.condition m [(c, .int z)] =
      if int4 z = true then some fun r => decide (r c = .int z) else none := by
  have hcol := rt.columnCondition_int (f := .required c .int) rfl z
  simp only [Runtime.condition, hf, Option.bind_some, hcol]
  by_cases h4 : int4 z = true
  · simp [h4]
  · simp [h4]

/-- The answer of the query in `getEffectivePermissions`, read as a set. -/
theorem mem_of_effective_call {userId : ℤ} {l : List Entity}
    (h : rt.Exec db (.findMany .userRoleAssignment [(.userId, .int userId)] [["role"]]) (.ok l) db')
    (p : String) : p ∈ permissionSet l ↔ db.rows.effective userId p := by
  obtain ⟨-, ⟨e, he⟩ | ⟨hit, hcond, hl⟩⟩ := h.findMany
  · cases he
  · rw [condition_column rt rfl] at hcond
    split at hcond
    · rw [Except.ok.inj hl, mem_permissionSet, ← Option.some.inj hcond]
      simp only [decide_eq_true_eq, Tables.effective]
    · cases hcond

theorem mem_effectivePermissions {userId : ℤ} {p : String} :
    p ∈ effectivePermissions rt db userId ↔ db.rows.effective userId p := by
  constructor
  · rintro ⟨l, db', hends, hp⟩
    cases hends with
    | @call _ _ _ s' _ r _ hc hk =>
        cases r with
        | error e => cases hk
        | ok entities =>
            cases hk
            exact (mem_of_effective_call hc p).mp hp
  · intro hp
    obtain ⟨a, ha, huser, -⟩ := id hp
    have h4 : int4 userId = true := db.valid.int4 ha (c := .userId) rfl huser
    have hcond := condition_column rt (m := .userRoleAssignment) (c := .userId) rfl userId
    rw [if_pos h4] at hcond
    have hexec := @Runtime.Exec.answered rt db
      (.findMany .userRoleAssignment [(.userId, .int userId)] [["role"]])
    simp only [Runtime.answer, hcond] at hexec
    exact ⟨_, db, .call hexec (.ret _ db), (mem_of_effective_call hexec p).mpr hp⟩

end

/-! ## Rules for any model -/

section

variable {rt : Runtime} {db db' : Db} {m : Model}

/-- An update that leaves the ids alone, as a map on the rows of the model. -/
theorem Updated.map {hit : Row → Bool} {data : Js} (h : Updated rt m hit data db db')
    (hid : data.get "id" = .undefined) :
    ∃ f : Row → Row, db'.rows = Function.update db.rows m ((db.rows m).map f) ∧
      ∀ r ∈ db.rows m, (hit r = false → f r = r) ∧
        (hit r = true → ∃ ops, rt.ops m data = some ops ∧ applyOps ops r = some (f r)) := by
  obtain ⟨ops, hops, hall, hrows⟩ := h.ops
  refine ⟨fun r => if hit r then (applyOps ops r).getD r else r, ?_, fun r hr => ⟨?_, ?_⟩⟩
  · rw [hrows]
    refine Tables.updated_of_id fun r hr hhit => ?_
    obtain ⟨r', hr'⟩ := hall r hr hhit
    rw [hr']
    exact Runtime.ops_of_undefined hops hr' hid
  · intro hhit; simp [hhit]
  · intro hhit
    obtain ⟨r', hr'⟩ := hall r hr hhit
    exact ⟨ops, hops, by simp [hhit, hr']⟩

/-- The rows that `ownRow` selects. -/
theorem condition_ownRow {id householdId : ℤ} {hit : Row → Bool}
    (h : rt.condition m (ownRow id householdId) = some hit) {r : Row} (hr : hit r = true)
    (hf : m.field? .id = some (.required .id .int))
    (hg : m.field? .householdId = some (.required .householdId .int)) :
    r .id = .int id ∧ r .householdId = .int householdId :=
  ⟨Runtime.condition_int h hr List.mem_cons_self hf rfl,
    Runtime.condition_int h hr (List.mem_cons_of_mem _ List.mem_cons_self) hg rfl⟩

theorem Runtime.read_strings (rt : Runtime) (l : List String) :
    rt.read .stringList (.arr (l.map .str)) = some (.stringList l) := by
  have hmap : (l.map Js.str).mapM Js.string? = some l := by
    induction l with
    | nil => rfl
    | cons s l ih => simp [List.mapM_cons, Js.string?, ih]
  simp [Runtime.read, hmap]

end

/-! ## Programs whose calls are all of one kind -/

theorem awaited_obeys {P : Call → Prop} {α : Type} (r : Except PrismaError α) :
    (awaited r).Obeys P fun _ => True := by
  cases r <;> trivial

theorem call_obeys {P : Call → Prop} {α : Type} {c : Call}
    {answer : Answer c → Except PrismaError α} (hc : P c) :
    (Prog.call c fun r => awaited (answer r) : Service α).Obeys P fun _ => True :=
  ⟨hc, fun r => awaited_obeys (answer r)⟩

theorem getEffectivePermissions_obeys {P : Call → Prop} (hfind : ∀ m w incl, P (.findMany m w incl))
    {userId : ℤ} : (getEffectivePermissions userId).Obeys P fun _ => True :=
  Prog.Obeys.bind (call_obeys (hfind _ _ _)) fun _ _ => trivial

/-! ## The calls of the roles service -/

namespace RolesService

variable {rt : Runtime} {db db' : Db}

/-! ### The parts that only read -/

section

variable {P : Call → Prop} {registry : PermissionRegistry}

theorem validatePermissionKeys_obeys {permissions : List String} :
    (validatePermissionKeys registry permissions).Obeys P fun _ => True := by
  unfold validatePermissionKeys
  dsimp only
  split <;> trivial

theorem checkDelegation_obeys (hfind : ∀ m w incl, P (.findMany m w incl)) {actorUserId : ℤ}
    {permissions : List String} :
    (checkDelegation registry actorUserId permissions).Obeys P fun _ => True := by
  refine Prog.Obeys.bind (getEffectivePermissions_obeys hfind) fun actorPerms _ => ?_
  dsimp only
  split <;> trivial

theorem findOne_obeys (hfind : ∀ m w incl, P (.findFirst m w incl)) {householdId id : ℤ} :
    (findOne householdId id).Obeys P fun _ => True := by
  refine Prog.Obeys.bind (call_obeys (hfind _ _ _)) fun role _ => ?_
  cases role <;> trivial

end

/-! ### The writes -/

/-- `data` of a role to create. -/
def createData (householdId : ℤ) (name : String) (permissions : List String) : Js :=
  .obj [("name", .str name), ("permissions", .arr (permissions.map .str)),
    ("householdId", .int householdId)]

/-- `data` of an assignment to create. -/
def assignData (userId roleId : ℤ) : Js := .obj [("userId", .int userId), ("roleId", .int roleId)]

/-- A role as `create` appends it. -/
structure Created (householdId : ℤ) (permissions : List String) (row : Row) (db db' : Db) :
    Prop where
  rows : db'.rows = Function.update db.rows .customRole (db.rows .customRole ++ [row])
  id : row .id = .int (db.seq .customRole)
  seq : db.seq .customRole < db'.seq .customRole
  household : row .householdId = .int householdId
  permissions : row .permissions = .stringList permissions

theorem create_call {householdId : ℤ} {name : String} {permissions : List String}
    {r : Except PrismaError Row}
    (h : rt.Exec db (.create .customRole (createData householdId name permissions)) r db') :
    db'.rows = db.rows ∨ ∃ row, Created householdId permissions row db db' := by
  have hscalars : (createData householdId name permissions).hasOnly
      (Model.scalarKeys .customRole) = true := rfl
  rcases h.create hscalars with ⟨e, -, hrows⟩ | ⟨new, row, hnew, -, hins⟩
  · exact .inl hrows
  · have hid : new .id = .null := Runtime.newRow_id hnew rfl
    have hperm := Runtime.newRow_value hnew (c := .permissions) rfl
    refine .inr ⟨row, hins.rows, hins.fresh hid, hins.seq hid, ?_, ?_⟩
    · rw [hins.cols .householdId (by decide)]
      exact Runtime.newRow_int hnew (c := .householdId) rfl rfl rfl
    · rw [hins.cols .permissions (by decide)]
      have hread := congrArg (Option.map Value.stored) (rt.read_strings permissions)
      simp only [createData, Js.get, List.lookup_cons, Col.key, Field.withDefault] at hperm
      exact (Option.some.inj (hperm.symm.trans hread)).symm ▸ rfl

/-- What `update` with these arguments does to the role `id`: the listed permissions, if
there are some, take the place of its own, and its household stays. -/
structure Changed (id : ℤ) (permissions : Option (List String)) (f : Row → Row) (db db' : Db) :
    Prop where
  rows : db'.rows = Function.update db.rows .customRole ((db.rows .customRole).map f)
  other : ∀ row ∈ db.rows .customRole, row .id ≠ .int id → f row = row
  keeps : ∀ row ∈ db.rows .customRole, ∀ c, c ≠ .name → c ≠ .permissions → f row c = row c
  permissions : ∀ row ∈ db.rows .customRole, row .id = .int id →
    f row .permissions = match permissions with
      | some l => .stringList l
      | none => row .permissions

theorem updateData_scalars (name : Option String) (permissions : Option (List String)) :
    (updateData name permissions).hasOnly (Model.scalarKeys .customRole) = true := by
  unfold updateData
  cases name with
  | none => cases permissions <;> rfl
  | some name => by_cases hname : name = "" <;> cases permissions <;> simp [hname] <;> rfl

theorem updateData_get (name : Option String) (permissions : Option (List String)) {key : String}
    (hname : key ≠ "name") (hperm : key ≠ "permissions") :
    (updateData name permissions).get key = .undefined := by
  have hn : (key == "name") = false := by simpa using hname
  have hp : (key == "permissions") = false := by simpa using hperm
  unfold updateData
  cases name with
  | none => cases permissions <;> simp [Js.get, List.lookup_cons, hp]
  | some name =>
      by_cases hempty : name = "" <;> cases permissions <;>
        simp [hempty, Js.get, List.lookup_cons, hn, hp]

theorem updateData_permissions (name : Option String) (permissions : Option (List String)) :
    (updateData name permissions).get "permissions" = match permissions with
      | some l => .arr (l.map .str)
      | none => .undefined := by
  unfold updateData
  cases name with
  | none => cases permissions <;> rfl
  | some name => by_cases hempty : name = "" <;> cases permissions <;> simp [hempty] <;> rfl

theorem update_call {id : ℤ} {name : Option String} {permissions : Option (List String)}
    {r : Except PrismaError Row}
    (h : rt.Exec db (.update .customRole [(.id, .int id)] (updateData name permissions)) r db') :
    db'.rows = db.rows ∨ ∃ f, Changed id permissions f db db' := by
  have hid : (updateData name permissions).get "id" = .undefined :=
    updateData_get name permissions (by decide) (by decide)
  rcases h.update (updateData_scalars name permissions) with
    ⟨e, -, hrows⟩ | ⟨target, hit, hcond, htarget, hhit, hupd⟩
  · exact .inl hrows
  · have hint : target .id = .int id :=
      Runtime.condition_int hcond hhit (c := .id) List.mem_cons_self rfl rfl
    obtain ⟨f, hrows, hf⟩ := hupd.map hid
    -- Other roles stay, other columns stay, and `permissions` becomes what was given.
    refine .inr ⟨f, hrows, fun row hrow hne => ?_, fun row hrow c hname hperm => ?_,
      fun row hrow hrow_id => ?_⟩
    · refine (hf row hrow).1 ?_
      simp [hasId, hint, hne]
    · by_cases hthis : hasId (target .id) row = true
      · obtain ⟨ops, hops, happly⟩ := (hf row hrow).2 hthis
        refine Runtime.ops_of_undefined hops happly (updateData_get _ _ ?_ ?_)
        · cases c <;> first | exact absurd rfl hname | decide
        · cases c <;> first | exact absurd rfl hperm | decide
      · rw [(hf row hrow).1 (by simpa using hthis)]
    · have hthis : hasId (target .id) row = true := by simp [hasId, hint, hrow_id]
      obtain ⟨ops, hops, happly⟩ := (hf row hrow).2 hthis
      obtain ⟨op, hread, hchange⟩ := Runtime.ops_apply hops happly (c := .permissions) rfl
      rw [show Col.key .permissions = "permissions" from rfl, updateData_permissions] at hread
      cases permissions with
      | none =>
          cases hread
          exact hchange
      | some l =>
          simp only [Runtime.readOp, Runtime.readNullable, Field.withDefault,
            rt.read_strings l, Option.map_some, Option.some.injEq] at hread
          subst hread
          exact (Option.some.inj hchange).symm

/-- An assignment as `assignRole` appends it. -/
structure Assigned (userId roleId : ℤ) (row : Row) (db db' : Db) : Prop where
  rows : db'.rows = Function.update db.rows .userRoleAssignment
    (db.rows .userRoleAssignment ++ [row])
  user : row .userId = .int userId
  role : row .roleId = .int roleId

theorem assign_call {userId roleId : ℤ} {r : Except PrismaError Row}
    (h : rt.Exec db (.create .userRoleAssignment (assignData userId roleId)) r db') :
    db'.rows = db.rows ∨ ∃ row, Assigned userId roleId row db db' := by
  have hscalars : (assignData userId roleId).hasOnly
      (Model.scalarKeys .userRoleAssignment) = true := rfl
  rcases h.create hscalars with ⟨e, -, hrows⟩ | ⟨new, row, hnew, -, hins⟩
  · exact .inl hrows
  · refine .inr ⟨row, hins.rows, ?_, ?_⟩
    · rw [hins.cols .userId (by decide)]
      exact Runtime.newRow_int hnew (c := .userId) rfl rfl rfl
    · rw [hins.cols .roleId (by decide)]
      exact Runtime.newRow_int hnew (c := .roleId) rfl rfl rfl

/-! ### Methods whose calls are all of one kind -/

section

variable {P : Call → Prop} {registry : PermissionRegistry} {householdId id actorUserId : ℤ}

theorem create_obeys (hmany : ∀ m w incl, P (.findMany m w incl)) {name : String}
    {permissions : List String}
    (hcreate : P (.create .customRole (createData householdId name permissions))) :
    (create registry householdId actorUserId name permissions).Obeys P fun _ => True := by
  refine Prog.Obeys.bind validatePermissionKeys_obeys fun _ _ => ?_
  refine Prog.Obeys.bind (checkDelegation_obeys hmany) fun _ _ => ?_
  exact call_obeys hcreate

theorem update_obeys (hfirst : ∀ m w incl, P (.findFirst m w incl))
    (hmany : ∀ m w incl, P (.findMany m w incl)) {name : Option String}
    {permissions : Option (List String)}
    (hupdate : P (.update .customRole [(.id, .int id)] (updateData name permissions))) :
    (update registry householdId id actorUserId name permissions).Obeys P fun _ => True := by
  have hwrite : (FinanceTracker.update .customRole [(.id, .int id)]
      (updateData name permissions)).Obeys P fun _ => True := call_obeys hupdate
  refine Prog.Obeys.bind (findOne_obeys hfirst) fun existing _ => ?_
  cases permissions with
  | none => exact hwrite
  | some l =>
      refine Prog.Obeys.bind validatePermissionKeys_obeys fun _ _ => ?_
      dsimp only
      split
      · exact Prog.Obeys.bind (checkDelegation_obeys hmany) fun _ _ => hwrite
      · exact hwrite

theorem remove_obeys (hfirst : ∀ m w incl, P (.findFirst m w incl))
    (hdeleteMany : P (.deleteMany .userRoleAssignment [(.roleId, .int id)]))
    (hdelete : P (.delete .customRole [(.id, .int id)])) :
    (remove householdId id).Obeys P fun _ => True := by
  refine Prog.Obeys.bind (findOne_obeys hfirst) fun _ _ => ?_
  refine Prog.Obeys.bind (call_obeys hdeleteMany) fun _ _ => ?_
  exact call_obeys hdelete

theorem assignRole_obeys (hfirst : ∀ m w incl, P (.findFirst m w incl))
    (hmany : ∀ m w incl, P (.findMany m w incl)) {roleId userId : ℤ}
    (hcreate : P (.create .userRoleAssignment (assignData userId roleId))) :
    (assignRole registry householdId roleId userId actorUserId).Obeys P fun _ => True := by
  refine Prog.Obeys.bind (findOne_obeys hfirst) fun role _ => ?_
  refine Prog.Obeys.bind (call_obeys (hfirst _ _ _)) fun user _ => ?_
  cases user with
  | none => trivial
  | some user =>
      refine Prog.Obeys.bind (checkDelegation_obeys hmany) fun _ _ => ?_
      exact call_obeys hcreate

theorem unassignRole_obeys (hfirst : ∀ m w incl, P (.findFirst m w incl))
    (hdelete : ∀ w, P (.delete .userRoleAssignment w)) (householdId : ℤ) {roleId userId : ℤ} :
    (unassignRole householdId roleId userId).Obeys P fun _ => True := by
  refine Prog.Obeys.bind (call_obeys (hfirst _ _ _)) fun assignment _ => ?_
  cases assignment with
  | none => trivial
  | some assignment => exact call_obeys (hdelete _)

end

end RolesService

end EngineeringLab.FinanceTracker
