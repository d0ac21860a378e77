/-
Permissions: the registry of the modules' permission keys and delegation rules
(`core/permissions/permission-registry.service.ts`), the permissions a user has
(`user-permissions.service.ts`) and the guard on the routes
(`common/guards/permissions.guard.ts`).

A module registers a descriptor: its name, its keys, and for some of the keys a rule that
names the permission whose holders may hand the key out. `register` adds to four collections
one after the other, and the check that a key is new stands inside the loop that already
adds. The order of the steps is kept here as it is, since a call that throws leaves what it
has done so far.

What a user may do is read from the database at every request: the permissions of all roles
that are assigned to the user, as one list (`getEffectivePermissions`). The guard compares
that with the keys that the route's decorator asks for, and the roles service with the rules
of the registry (`canDelegate`). A key without a rule can be handed out by nobody.
-/
import EngineeringLab.FinanceTracker.Client

set_option autoImplicit false

open Concurrency

namespace EngineeringLab.FinanceTracker

/-! ## The registry -/

structure DelegationRule where
  grantableBy : String
  deriving DecidableEq, Repr

/-- `PermissionDescriptor`, without the templates that only the seed script uses. -/
structure PermissionDescriptor where
  moduleName : String
  permissions : List String
  delegation : List (String × DelegationRule)

/-- The fields of `PermissionRegistryService`. The `delegationMap` is looked up by key,
and what `Object.assign` added last comes first. -/
structure PermissionRegistry where
  descriptors : List PermissionDescriptor
  allRegisteredKeys : List String
  registeredModules : List String
  delegationMap : List (String × DelegationRule)

namespace PermissionRegistry

def empty : PermissionRegistry := ⟨[], [], [], []⟩

/-- The loop of `register` over the descriptor's keys; it throws at the first key that
is taken, and the keys before it stay. -/
def addKeys (moduleName : String) : List String → PermissionRegistry →
    Except String Unit × PermissionRegistry
  | [], r => (.ok (), r)
  | key :: keys, r =>
    if r.allRegisteredKeys.contains key then
      (.error s!"Duplicate permission \"{key}\" registered by module \"{moduleName}\"", r)
    else addKeys moduleName keys { r with allRegisteredKeys := r.allRegisteredKeys ++ [key] }

/-- `register`: what it threw, if it did, and the registry it leaves. -/
def register (r : PermissionRegistry) (d : PermissionDescriptor) :
    Except String Unit × PermissionRegistry :=
  if r.registeredModules.contains d.moduleName then
    (.error (s!"Duplicate module name \"{d.moduleName}\" — " ++
      "each module must register a unique name"), r)
  else
    match addKeys d.moduleName d.permissions
        { r with registeredModules := r.registeredModules ++ [d.moduleName] } with
    | (.error e, r) => (.error e, r)
    | (.ok (), r) =>
      (.ok (), { r with
        delegationMap := d.delegation.reverse ++ r.delegationMap
        descriptors := r.descriptors ++ [d] })

def isKnownPermission (r : PermissionRegistry) (permission : String) : Bool :=
  r.allRegisteredKeys.contains permission

/-- The `grantableBy` key of a permission that has a rule. -/
def grantableBy (r : PermissionRegistry) (permission : String) : Option String :=
  (r.delegationMap.lookup permission).map (·.grantableBy)

def canDelegate (r : PermissionRegistry) (actorPermissions : List String)
    (permissionToGrant : String) : Bool :=
  match r.delegationMap.lookup permissionToGrant with
  | none => false
  | some rule => actorPermissions.contains rule.grantableBy

/-- `canDelegateAll`: the permissions that are denied; it allows when there is none. -/
def denied (r : PermissionRegistry) (actorPermissions permissionsToGrant : List String) :
    List String :=
  permissionsToGrant.filter fun p => !r.canDelegate actorPermissions p

theorem canDelegate_iff {r : PermissionRegistry} {actor : List String} {p : String} :
    r.canDelegate actor p = true ↔ ∃ q, r.grantableBy p = some q ∧ q ∈ actor := by
  unfold canDelegate grantableBy
  cases r.delegationMap.lookup p <;> simp

theorem canDelegate_of_denied {r : PermissionRegistry} {actor granted : List String}
    (h : r.denied actor granted = []) {p : String} (hp : p ∈ granted) :
    r.canDelegate actor p = true := by
  simpa using List.filter_eq_nil_iff.mp h p hp

end PermissionRegistry

/-- `accountsPermissions`, the descriptor of the accounts module. -/
def accountsPermissions : PermissionDescriptor where
  moduleName := "accounts"
  permissions := ["accounts:create", "accounts:read", "accounts:edit", "accounts:delete"]
  delegation :=
    [("accounts:read", ⟨"accounts:read"⟩), ("accounts:create", ⟨"accounts:delete"⟩),
      ("accounts:edit", ⟨"accounts:delete"⟩), ("accounts:delete", ⟨"accounts:delete"⟩)]

/-- The registry once the accounts module has registered. -/
def accountsRegistry : PermissionRegistry :=
  (PermissionRegistry.empty.register accountsPermissions).2

/-! ## Effective permissions -/

/-- The permissions of the roles that came along with the assignments, each once. -/
def permissionSet (assignments : List Entity) : List String :=
  (assignments.flatMap fun a =>
    (a.included.filter fun p => p.1 = .customRole).flatMap fun p =>
      (p.2 .permissions).strings).eraseDups

/-- `UserPermissionsService.getEffectivePermissions`. -/
def getEffectivePermissions (userId : ℤ) : Service (List String) := do
  let assignments ← findMany .userRoleAssignment [(.userId, .int userId)] [["role"]]
  return permissionSet assignments

/-- What `getEffectivePermissions` gives on the database: the permissions of every
role that an assignment of the user links to. -/
def Tables.effective (t : Tables) (userId : ℤ) (p : String) : Prop :=
  ∃ a ∈ t .userRoleAssignment, a .userId = .int userId ∧
    ∃ role ∈ t .customRole, role .id = a .roleId ∧ p ∈ (role .permissions).strings

instance (t : Tables) (userId : ℤ) (p : String) : Decidable (t.effective userId p) :=
  inferInstanceAs (Decidable (∃ a ∈ t .userRoleAssignment, a .userId = .int userId ∧
    ∃ role ∈ t .customRole, role .id = a .roleId ∧ p ∈ (role .permissions).strings))

/-- The roles that come along with an assignment are the rows it refers to. -/
theorem Tables.mem_entity_role {t : Tables} {a : Row} {p : Model × Row} :
    p ∈ (t.entity .userRoleAssignment [["role"]] a).included ↔
      p.1 = .customRole ∧ p.2 ∈ t .customRole ∧ p.2 .id = a .roleId := by
  have hpath : (t.entity .userRoleAssignment [["role"]] a).included =
      t.follow .userRoleAssignment a "role" := List.append_nil _
  rw [hpath, Tables.mem_follow]
  constructor
  · rintro (⟨fk, hfk, hkey, hm, hmem, hid⟩ | ⟨child, hchild, -⟩)
    · have hrole : fk.target = .customRole ∧ fk.col = .roleId := by
        clear hm hid
        revert fk; decide
      rw [hrole.1] at hm
      rw [hrole.2] at hid
      exact ⟨hm, hm ▸ hmem, hid⟩
    · have hnone : Model.children .userRoleAssignment = [] := rfl
      rw [hnone] at hchild
      cases hchild
  · rintro ⟨hm, hmem, hid⟩
    exact .inl ⟨⟨.roleId, .customRole, "role", "assignments", .restrict⟩,
      by simp [Model.foreignKeys], rfl, hm, hm ▸ hmem, hid⟩

theorem mem_permissionSet {t : Tables} {hit : Row → Bool} {p : String} :
    p ∈ permissionSet (((t .userRoleAssignment).filter hit).map
      (t.entity .userRoleAssignment [["role"]])) ↔
      ∃ a ∈ t .userRoleAssignment, hit a = true ∧
        ∃ role ∈ t .customRole, role .id = a .roleId ∧ p ∈ (role .permissions).strings := by
  simp only [permissionSet, List.mem_eraseDups, List.mem_flatMap, List.mem_map, List.mem_filter]
  constructor
  · rintro ⟨e, ⟨a, ⟨ha, hhit⟩, rfl⟩, q, ⟨hq, -⟩, hp⟩
    obtain ⟨-, hrole, hid⟩ := Tables.mem_entity_role.mp hq
    exact ⟨a, ha, hhit, q.2, hrole, hid, hp⟩
  · rintro ⟨a, ha, hhit, role, hrole, hid, hp⟩
    exact ⟨_, ⟨a, ⟨ha, hhit⟩, rfl⟩, (.customRole, role),
      ⟨Tables.mem_entity_role.mpr ⟨rfl, hrole, hid⟩, by simp⟩, hp⟩

/-! ## The guard -/

/-- `PermissionsGuard.canActivate` on a route whose decorator requires `required`, if
it has one; `handler` is how the route is named in the error. -/
def PermissionsGuard.canActivate (registry : PermissionRegistry) (handler : String)
    (required : Option (List String)) (userId : ℤ) : Service Bool :=
  match required with
  | none => return true
  | some required =>
    match required.find? fun p => !registry.isKnownPermission p with
    | some permission =>
      .throw (.internalServerErrorException
        (s!"Unknown permission \"{permission}\" on {handler}. " ++
          "Did you forget to register it in a PermissionDescriptor?"))
    | none => do
      let userPermissions ← getEffectivePermissions userId
      return required.all fun p => userPermissions.contains p

end EngineeringLab.FinanceTracker
