/-
HTTP requests: the handlers of the controllers with their decorators, and the guards that
stand before them.

Every request has a user, which the middleware sets. The global guards are asked in the
order in which `app.module.ts` provides them; one that says no ends the request. Then the
ids in the path are parsed, and only then the handler calls its service. `hello` and
`listAdapters` call none.

There are two guards. The feature guard asks whether the module that `@RequiresModule` names
is enabled for the user's household; the permissions guard reads the user's permissions and
compares them with those that `@Permissions` names. Each of them makes calls of its own,
which other requests may come between, and so the answer may be out of date when the handler
runs. The household of a request is that of its user, whatever its path says.

The decorators are data: for every endpoint its module and its permissions are written down
as they stand in the controllers (`Endpoint.controllerModule`, `Endpoint.permissions`), and
the guards read them from there. An endpoint without a decorator is visible as such; the
only one is the greeting at the root.
-/
import EngineeringLab.Concurrency.Interleave
import EngineeringLab.FinanceTracker.Bodies

set_option autoImplicit false

open Concurrency

namespace EngineeringLab.FinanceTracker

/-- `request.user`. -/
structure RequestUser where
  id : ℤ
  householdId : ℤ

/-! ## Handlers -/

/-- A handler with the arguments that it takes from the path and the body. -/
inductive Endpoint where
  | getHello
  | crud (route : Route) (op : CrudOperation)
  | findHousehold
  | updateHousehold (body : Js)
  | removeHousehold
  | createRole (name : String) (permissions : List String)
  | findRoles
  | findRole (id : ℤ)
  | updateRole (id : ℤ) (name : Option String) (permissions : Option (List String))
  | removeRole (id : ℤ)
  | assignRole (roleId userId : ℤ)
  | unassignRole (roleId userId : ℤ)
  | sync (accountId : ℤ) (start stop : Option String)
  | listAdapters

def Route.path : Route → String
  | users => "users"
  | accounts => "accounts"
  | categories => "categories"
  | budgets => "budgets"
  | transactions => "transactions"

def Route.controller : Route → String
  | users => "UsersController"
  | accounts => "AccountsController"
  | categories => "CategoriesController"
  | budgets => "BudgetsController"
  | transactions => "TransactionsController"

/-- The handler's name, and what its permission allows. -/
def CrudOperation.handler : CrudOperation → String × String
  | create _ => ("create", "create")
  | findAll => ("findAll", "read")
  | findOne _ => ("findOne", "read")
  | update _ _ => ("update", "edit")
  | remove _ => ("remove", "delete")

namespace Endpoint

/-- `@RequiresModule` of the controller. -/
def controllerModule : Endpoint → Option String
  | crud .budgets _ => some "budgets"
  | sync .. => some "bank-sync"
  | listAdapters => some "bank-sync"
  | _ => none

/-- `@RequiresModule` of the handler itself, which no handler has. -/
def handlerModule : Endpoint → Option String := fun _ => none

/-- `@Permissions`. -/
def permissions : Endpoint → Option (List String)
  | getHello => none
  | crud route op => some [route.path ++ ":" ++ op.handler.2]
  | findHousehold => some ["households:read"]
  | updateHousehold _ => some ["households:edit"]
  | removeHousehold => some ["households:delete"]
  | createRole .. => some ["roles:create"]
  | findRoles => some ["roles:read"]
  | findRole _ => some ["roles:read"]
  | updateRole .. => some ["roles:edit"]
  | removeRole _ => some ["roles:delete"]
  | assignRole .. => some ["roles:assign"]
  | unassignRole .. => some ["roles:unassign"]
  | sync .. => some ["bank-sync:execute"]
  | listAdapters => some ["bank-sync:read"]

/-- Class and method, as the permissions guard names them in an error. -/
def name : Endpoint → String
  | getHello => "AppController.getHello"
  | crud route op => route.controller ++ "." ++ op.handler.1
  | findHousehold => "HouseholdsController.findOne"
  | updateHousehold _ => "HouseholdsController.update"
  | removeHousehold => "HouseholdsController.remove"
  | createRole .. => "RolesController.create"
  | findRoles => "RolesController.findAll"
  | findRole _ => "RolesController.findOne"
  | updateRole .. => "RolesController.update"
  | removeRole _ => "RolesController.remove"
  | assignRole .. => "RolesController.assign"
  | unassignRole .. => "RolesController.unassign"
  | sync .. => "BankSyncController.sync"
  | listAdapters => "BankSyncController.listAdapters"

/-- The service method that the handler calls. -/
def operation (user : RequestUser) : Endpoint → Option Operation
  | getHello => none
  | crud route op => some (route.operation op)
  | findHousehold => some .findHousehold
  | updateHousehold body => some (.updateHousehold body)
  | removeHousehold => some .removeHousehold
  | createRole name permissions => some (.createRole user.id name permissions)
  | findRoles => some .findRoles
  | findRole id => some (.findRole id)
  | updateRole id name permissions => some (.updateRole id user.id name permissions)
  | removeRole id => some (.removeRole id)
  | assignRole roleId userId => some (.assignRole roleId userId user.id)
  | unassignRole roleId userId => some (.unassignRole roleId userId)
  | sync accountId start stop => some (.syncTransactions accountId (match start, stop with
    -- a range takes both ends
    | some start, some stop => if start ≠ "" ∧ stop ≠ "" then some (start, stop) else none
    | _, _ => none))
  | listAdapters => none

end Endpoint

/-! ## The guards -/

/-- `FeatureFlagGuard.canActivate`: the handler's decorator goes before its controller's. -/
def FeatureFlagGuard.canActivate (handlerModule controllerModule : Option String)
    (householdId : ℤ) : Service Bool :=
  match handlerModule.or controllerModule with
  | none => return true
  | some moduleName =>
    if moduleName = "" then return true
    else do
      let isEnabled ← isModuleEnabled householdId moduleName
      if isEnabled then return true
      else .throw (.forbiddenException
        s!"The \"{moduleName}\" module is not enabled for your household")

/-- What Nest does with a guard. -/
def guarded (guard : Service Bool) (next : Service Unit) : Service Unit := do
  let activates ← guard
  if activates then next else .throw (.forbiddenException "Forbidden resource")

/-- A request; `idsParse` says whether `ParseIntPipe` takes the ids in its path. -/
structure HttpRequest where
  user : RequestUser
  endpoint : Endpoint
  idsParse : Bool

namespace HttpRequest

section

variable (rt : Runtime) (app : App) (q : HttpRequest)

/-- The pipes and the handler. -/
def handle : Service Unit :=
  if q.idsParse then
    match q.endpoint.operation q.user with
    -- a handler that calls no service
    | none => return ()
    | some op => op.body rt app q.user.householdId
  else .throw (.badRequestException "Validation failed (numeric string is expected)")

def body : Service Unit :=
  guarded (FeatureFlagGuard.canActivate q.endpoint.handlerModule q.endpoint.controllerModule
      q.user.householdId) <|
    guarded (PermissionsGuard.canActivate app.registry q.endpoint.name q.endpoint.permissions
        q.user.id) <|
      q.handle rt app

end

/-- Is the body of the declared type? -/
def hasTypes (q : HttpRequest) : Bool :=
  match q.endpoint.operation q.user with
  | none => true
  | some op => op.hasTypes

end HttpRequest

/-- Requests of any users, each Prisma call one step. Flags are changed by other hands. -/
def httpSystem (rt : Runtime) (app : App) :
    System Db HttpRequest Call Answer ServiceError Unit where
  body q := q.body rt app
  admits q := q.hasTypes = true
  exec := rt.Exec
  drift db db' := ∀ m, m ≠ .featureFlag → db'.rows m = db.rows m
  spawn _ := []

end EngineeringLab.FinanceTracker
