/-
The services of the finance tracker, one section for each file under `src/`.

Bodies reach the services unvalidated, so `data` is a `Js` value wherever a service
hands it on as a whole; the roles service reads its fields one by one and takes them
as it declares them. A row comes back as it is stored: the `toNumber()` that the accounts
service puts on a balance changes only how the answer is written, and is left out. The
amount of an event is a number (`Runtime.numberOf`), since the listener computes with it.

A method is a program of calls (`Service`), and what it computes between them is as in the
source: the order of the calls, the objects that are built as `where` and `data`, the texts
of the errors. A service that the container injects into another is called directly.

An event is delivered by `EventBus.publish` to the subscribers in the order in which they
subscribed, each behind a look at its module's flag. The handlers are programs too, so the
calls of a listener are calls of the request that published; nothing runs in the background.
-/
import EngineeringLab.FinanceTracker.Permissions

set_option autoImplicit false

open Concurrency

namespace EngineeringLab.FinanceTracker

/-- The condition that a service puts on every query of its own rows. -/
def ownRow (id householdId : ℤ) : Where := [(.id, .int id), (.householdId, .int householdId)]

/-! ## `users.service.ts` -/

namespace UsersService

def create (householdId : ℤ) (data : Js) : Service Row :=
  FinanceTracker.create .user (data.assign "householdId" (.int householdId))

def findAll (householdId : ℤ) : Service (List Entity) :=
  findMany .user [(.householdId, .int householdId)] []

def findOne (householdId id : ℤ) : Service (Option Entity) :=
  findFirst .user (ownRow id householdId) []

def update (householdId id : ℤ) (data : Js) : Service ℕ :=
  updateMany .user (ownRow id householdId) data

def remove (householdId id : ℤ) : Service ℕ := deleteMany .user (ownRow id householdId)

end UsersService

/-! ## `households.service.ts` -/

namespace HouseholdsService

def findOne (householdId : ℤ) : Service (Option Entity) :=
  findFirst .household [(.id, .int householdId)] [["members"], ["accounts"], ["categories"]]

def update (householdId : ℤ) (data : Js) : Service Row :=
  FinanceTracker.update .household [(.id, .int householdId)] data

def remove (householdId : ℤ) : Service Row := delete .household [(.id, .int householdId)]

end HouseholdsService

/-! ## `accounts.service.ts` -/

namespace AccountsService

def create (householdId : ℤ) (data : Js) : Service Row :=
  FinanceTracker.create .account (data.assign "householdId" (.int householdId))

def findAll (householdId : ℤ) : Service (List Entity) :=
  findMany .account [(.householdId, .int householdId)] []

/-- The id is a `Js` value: the transactions service passes one from a body. -/
def findOne (householdId : ℤ) (id : Js) : Service (Option Entity) :=
  findFirst .account [(.id, id), (.householdId, .int householdId)] [["transactions"]]

def update (householdId id : ℤ) (data : Js) : Service ℕ :=
  updateMany .account (ownRow id householdId) data

def remove (householdId id : ℤ) : Service ℕ := deleteMany .account (ownRow id householdId)

end AccountsService

/-! ## `categories.service.ts` -/

namespace CategoriesService

def create (householdId : ℤ) (data : Js) : Service Row :=
  FinanceTracker.create .category (data.assign "householdId" (.int householdId))

def findAll (householdId : ℤ) : Service (List Entity) :=
  findMany .category [(.householdId, .int householdId)] []

def findOne (householdId id : ℤ) : Service (Option Entity) :=
  findFirst .category (ownRow id householdId) [["transactions"]]

def update (householdId id : ℤ) (data : Js) : Service ℕ :=
  updateMany .category (ownRow id householdId) data

def remove (householdId id : ℤ) : Service ℕ := deleteMany .category (ownRow id householdId)

end CategoriesService

/-! ## `budgets.service.ts` -/

namespace BudgetsService

def create (householdId : ℤ) (data : Js) : Service Row :=
  FinanceTracker.create .budget (data.assign "householdId" (.int householdId))

def findAll (householdId : ℤ) : Service (List Entity) :=
  findMany .budget [(.householdId, .int householdId)] []

def findOne (householdId id : ℤ) : Service (Option Entity) :=
  findFirst .budget (ownRow id householdId) []

def update (householdId id : ℤ) (data : Js) : Service ℕ :=
  updateMany .budget (ownRow id householdId) data

def remove (householdId id : ℤ) : Service ℕ := deleteMany .budget (ownRow id householdId)

end BudgetsService

/-! ## Feature flags, events and their listener -/

/-- `FeatureFlagService.isModuleEnabled`: no row means disabled. -/
def isModuleEnabled (householdId : ℤ) (moduleName : String) : Service Bool := do
  match ← findFirst .featureFlag
      [(.householdId, .int householdId), (.moduleName, .str moduleName)] [] with
  | none => return false
  | some flag => return flag.row .isEnabled = .boolean true

/-- A column value as the services see it. -/
def Value.toJs : Value → Js
  | .null => .null
  | .int z => .int z
  | .string s => .str s
  | .stringList l => .arr (l.map .str)
  | .decimal q => .num q
  | .dateTime ms => .date (some ms)
  | .boolean b => .bool b

/-- `Number(v)` of the value in a `Decimal` column. -/
def Runtime.numberOf (rt : Runtime) : Value → ℚ
  | .decimal q => rt.number q
  | _ => 0

/-- `DomainEvent` with the payload of `TransactionCreated`: the columns as the created row gives
them, and its amount as a number. -/
structure DomainEvent where
  name : String
  transactionId : Value
  householdId : ℤ
  accountId : Value
  categoryId : Value
  amount : ℚ

def transactionCreated : String := "TransactionCreated"

structure EventSubscription where
  moduleName : Option String
  handler : DomainEvent → Service Unit

/-- The subscribers of each event name, in the order of their subscription. -/
abbrev EventBus := List (String × EventSubscription)

/-- The body of `EventBus.publish`'s loop: the flag lookup is outside of the `try`. -/
def EventBus.deliver (event : DomainEvent) (subscriber : EventSubscription) : Service Unit := do
  let enabled ← match subscriber.moduleName with
    | none => pure true
    | some moduleName =>
      if moduleName = "" then pure true else isModuleEnabled event.householdId moduleName
  if enabled then
    (subscriber.handler event).tryCatch fun _ => return ()
  else return ()

/-- `EventBus.publish`. -/
def EventBus.publish (bus : EventBus) (event : DomainEvent) : Service Unit := do
  let subscribers := (bus.filter (·.1 = event.name)).map (·.2)
  let _ ← Prog.each subscribers (EventBus.deliver event)

/-- `TransactionCreatedListener.handle`. -/
def TransactionCreatedListener.handle (event : DomainEvent) : Service Unit := do
  if event.categoryId.toJs.truthy then
    match ← findFirst .budget
        [(.householdId, .int event.householdId), (.categoryId, event.categoryId.toJs)] [] with
    | none => return ()
    | some budget => do
      let _ ← FinanceTracker.update .budget [(.id, (budget.row .id).toJs)]
        (.obj [("currentSpent", .obj [("increment", .num event.amount)])])
  else return ()

/-- The subscription that `BudgetsModule` makes. -/
def budgetsBus : EventBus :=
  [(transactionCreated, ⟨some "budgets", TransactionCreatedListener.handle⟩)]

/-! ## `transactions.service.ts` -/

namespace TransactionsService

section

variable (rt : Runtime) (bus : EventBus)

/-- The transaction's fields are named one by one; `categoryId` is not looked up. -/
def create (householdId : ℤ) (data : Js) : Service Row := do
  let accountId := rt.text (data.get "accountId")
  match ← AccountsService.findOne householdId (data.get "accountId") with
  | none =>
    .throw (.notFoundException s!"Account {accountId} not found in this household")
  | some _ => do
    let transaction ← FinanceTracker.create .transaction (.obj [
      ("amount", data.get "amount"),
      ("description", data.get "description"),
      ("date", .date (rt.newDate (data.get "date"))),
      ("householdId", .int householdId),
      ("accountId", data.get "accountId"),
      ("categoryId", data.get "categoryId")])
    bus.publish ⟨transactionCreated, transaction .id, householdId, transaction .accountId,
      transaction .categoryId, rt.numberOf (transaction .amount)⟩
    return transaction

def findAll (householdId : ℤ) : Service (List Entity) :=
  findMany .transaction [(.householdId, .int householdId)] [["account"], ["category"]]

def findOne (householdId id : ℤ) : Service (Option Entity) :=
  findFirst .transaction (ownRow id householdId) [["account"], ["category"]]

def update (householdId id : ℤ) (data : Js) : Service ℕ :=
  updateMany .transaction (ownRow id householdId) (data.assign "date"
    (if (data.get "date").truthy then .date (rt.newDate (data.get "date")) else .undefined))

def remove (householdId id : ℤ) : Service ℕ :=
  deleteMany .transaction (ownRow id householdId)

end

end TransactionsService

/-! ## `roles.service.ts` -/

namespace RolesService

section

variable (registry : PermissionRegistry)

def validatePermissionKeys (permissions : List String) : Service Unit :=
  let unknown := permissions.filter fun p => !registry.isKnownPermission p
  let keys := ", ".intercalate unknown
  if unknown ≠ [] then .throw (.badRequestException s!"Unknown permission keys: {keys}")
  else return ()

def checkDelegation (actorUserId : ℤ) (permissions : List String) : Service Unit := do
  let actorPerms ← getEffectivePermissions actorUserId
  let denied := registry.denied actorPerms permissions
  let keys := ", ".intercalate denied
  if denied ≠ [] then
    .throw (.forbiddenException (s!"You cannot grant the following permissions: {keys}. " ++
      "You lack the required delegator permissions."))
  else return ()

def create (householdId actorUserId : ℤ) (name : String) (permissions : List String) :
    Service Row := do
  validatePermissionKeys registry permissions
  checkDelegation registry actorUserId permissions
  FinanceTracker.create .customRole (.obj [
    ("name", .str name),
    ("permissions", .arr (permissions.map .str)),
    ("householdId", .int householdId)])

def findAll (householdId : ℤ) : Service (List Entity) :=
  findMany .customRole [(.householdId, .int householdId)] [["assignments"], ["assignments", "user"]]

def findOne (householdId id : ℤ) : Service Entity := do
  match ← findFirst .customRole (ownRow id householdId)
      [["assignments"], ["assignments", "user"]] with
  | none => .throw (.notFoundException s!"Role #{id} not found")
  | some role => return role

/-- The `data` of the update: an empty name counts as none. -/
def updateData (name : Option String) (permissions : Option (List String)) : Js :=
  .obj ((match name with
    | some name => if name = "" then [] else [("name", .str name)]
    | none => []) ++
    match permissions with
    | some permissions => [("permissions", .arr (permissions.map .str))]
    | none => [])

def update (householdId id actorUserId : ℤ) (name : Option String)
    (permissions : Option (List String)) : Service Row := do
  let existing ← findOne householdId id
  match permissions with
  | none => pure ()
  | some permissions => do
    validatePermissionKeys registry permissions
    -- only the permissions that the role did not have when it was read are checked
    let added := permissions.filter fun p => !(existing.row .permissions).strings.contains p
    if added ≠ [] then checkDelegation registry actorUserId added
  FinanceTracker.update .customRole [(.id, .int id)] (updateData name permissions)

def remove (householdId id : ℤ) : Service Row := do
  let _ ← findOne householdId id
  let _ ← deleteMany .userRoleAssignment [(.roleId, .int id)]
  delete .customRole [(.id, .int id)]

def assignRole (householdId roleId userId actorUserId : ℤ) : Service Row := do
  let role ← findOne householdId roleId
  match ← findFirst .user (ownRow userId householdId) [] with
  | none => .throw (.notFoundException s!"User #{userId} not found in this household")
  | some _ => do
    checkDelegation registry actorUserId (role.row .permissions).strings
    FinanceTracker.create .userRoleAssignment (.obj [
      ("userId", .int userId),
      ("roleId", .int roleId)])

/-- The assignment is found by user and role only. -/
def unassignRole (_householdId roleId userId : ℤ) : Service Row := do
  match ← findFirst .userRoleAssignment [(.userId, .int userId), (.roleId, .int roleId)] [] with
  | none => .throw (.notFoundException "Role assignment not found")
  | some assignment => delete .userRoleAssignment [(.id, (assignment.row .id).toJs)]

end

end RolesService

/-! ## `bank-sync.service.ts` -/

/-- `IBankAdapter`: its class name and the banks it supports; `fetchTransactions` is a
call. -/
structure BankAdapter where
  name : String
  supports : String → Bool

/-- `BankAdapterRegistry.getAdapter`. -/
def getAdapter (adapters : List BankAdapter) (bankName : String) : Service BankAdapter :=
  let supportedBanks := ", ".intercalate (adapters.map (·.name))
  match adapters.find? (·.supports bankName) with
  | none =>
    .throw (.notFoundException (s!"No bank adapter registered for \"{bankName}\". " ++
      s!"Available banks: {supportedBanks}"))
  | some adapter => return adapter

structure SyncResult where
  accountId : Value
  bankName : String
  transactionsSynced : ℕ
  start : Option ℤ
  stop : Option ℤ

/-- `BankSyncService.syncTransactions`: one create for each transaction fetched. -/
def syncTransactions (rt : Runtime) (adapters : List BankAdapter) (householdId accountId : ℤ)
    (dateRange : Option (String × String)) : Service SyncResult := do
  match ← findFirst .account (ownRow accountId householdId) [] with
  | none =>
    .throw (.notFoundException s!"Account {accountId} not found in household {householdId}")
  | some account =>
    if (account.row .bankName).toJs.truthy then do
      let bankName := rt.text (account.row .bankName).toJs
      let adapter ← getAdapter adapters bankName
      let start ← match dateRange with
        | some (start, _) =>
          if start ≠ "" then pure (rt.newDate (.str start))
          else dateNow >>= fun now => pure (some (now - 30 * 24 * 60 * 60 * 1000))
        | none => dateNow >>= fun now => pure (some (now - 30 * 24 * 60 * 60 * 1000))
      let stop ← match dateRange with
        | some (_, stop) =>
          if stop ≠ "" then pure (rt.newDate (.str stop))
          else dateNow >>= fun now => pure (some now)
        | none => dateNow >>= fun now => pure (some now)
      let bankTransactions ←
        fetchTransactions adapter.name (rt.text (account.row .id).toJs) start stop
      let synced ← Prog.each bankTransactions fun txn =>
        FinanceTracker.create .transaction (.obj [
          ("amount", .num txn.amount),
          ("description", .str txn.description),
          ("date", .date txn.date),
          ("accountId", (account.row .id).toJs),
          ("householdId", .int householdId)])
      return ⟨account.row .id, bankName, synced.length, start, stop⟩
    else
      let name := rt.text (account.row .name).toJs
      .throw (.badRequestException
        s!"Account \"{name}\" has no bank configured. Set a bankName first.")

end EngineeringLab.FinanceTracker
