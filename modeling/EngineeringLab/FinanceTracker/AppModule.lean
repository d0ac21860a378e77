/-
The application: its modules and what they register (`app.module.ts`, `*.permissions.ts`).

Every module registers its descriptor in `onModuleInit`, and Nest calls these in an order of its
own. In every order all registrations succeed, and they leave a registry that knows what the
routes require (`startup`): the permissions guard never fails on a route of the application, it
only asks what the user has.

Every permission can be granted by whoever has it or by whoever has the `delete` permission of
its module, and these are their own grantors; so the closure of the delegation rules is one step
(`app_escalation`): without a `delete` permission nobody can hand out what they do not have.

The descriptors are written down as they stand in the modules' files, and the routes'
permissions as they stand in the decorators; that the former cover the latter is checked by
computation. The orders are all permutations, and are not enumerated: registering distinct
names with disjoint keys succeeds in any order, and what the registry knows afterwards does
not depend on it (`Order.Overlay`).
-/
import EngineeringLab.FinanceTracker.Delegation
import EngineeringLab.FinanceTracker.Escalation
import EngineeringLab.FinanceTracker.Http

set_option autoImplicit false

open Concurrency Overlay

namespace EngineeringLab.FinanceTracker

/-! ## The descriptors -/

/-- The permissions of a module of rows, and who may grant them. -/
def crudPermissions (moduleName : String) : PermissionDescriptor where
  moduleName := moduleName
  permissions := [moduleName ++ ":create", moduleName ++ ":read", moduleName ++ ":edit",
    moduleName ++ ":delete"]
  delegation :=
    [(moduleName ++ ":read", ⟨moduleName ++ ":read"⟩),
      (moduleName ++ ":create", ⟨moduleName ++ ":delete"⟩),
      (moduleName ++ ":edit", ⟨moduleName ++ ":delete"⟩),
      (moduleName ++ ":delete", ⟨moduleName ++ ":delete"⟩)]

def usersPermissions : PermissionDescriptor := crudPermissions "users"
def householdsPermissions : PermissionDescriptor := crudPermissions "households"
def transactionsPermissions : PermissionDescriptor := crudPermissions "transactions"
def categoriesPermissions : PermissionDescriptor := crudPermissions "categories"
def budgetsPermissions : PermissionDescriptor := crudPermissions "budgets"

/-- The accounts module has the same. -/
example : (accountsPermissions.permissions, accountsPermissions.delegation) =
    ((crudPermissions "accounts").permissions, (crudPermissions "accounts").delegation) := by
  decide +kernel

def rolesPermissions : PermissionDescriptor where
  moduleName := "roles"
  permissions := ["roles:create", "roles:read", "roles:edit", "roles:delete", "roles:assign",
    "roles:unassign"]
  delegation :=
    [("roles:read", ⟨"roles:read"⟩), ("roles:create", ⟨"roles:delete"⟩),
      ("roles:edit", ⟨"roles:delete"⟩), ("roles:delete", ⟨"roles:delete"⟩),
      ("roles:assign", ⟨"roles:delete"⟩), ("roles:unassign", ⟨"roles:delete"⟩)]

/-- The modules that `AppModule` imports, of those that register permissions. -/
def appModules : List PermissionDescriptor :=
  [usersPermissions, householdsPermissions, accountsPermissions, transactionsPermissions,
    categoriesPermissions, budgetsPermissions, PermissionRegistry.bankSyncPermissions,
    rolesPermissions]

/-! ## What the descriptors have in common -/

/-- Who may grant a permission: who has it, or who may delete in its module. -/
def PermissionDescriptor.Grants (d : PermissionDescriptor) (p : String) : Prop :=
  d.rule p = some ⟨p⟩ ∨ d.rule p = some ⟨d.moduleName ++ ":delete"⟩ ∧
    d.rule (d.moduleName ++ ":delete") = some ⟨d.moduleName ++ ":delete"⟩

instance (d : PermissionDescriptor) (p : String) : Decidable (d.Grants p) :=
  inferInstanceAs (Decidable (_ ∨ _ ∧ _))

theorem appModules_keys : (appModules.flatMap (·.permissions)).Nodup := by decide +kernel

theorem appModules_names : (appModules.map (·.moduleName)).Nodup := by decide +kernel

theorem appModules_grants : ∀ d ∈ appModules, ∀ p ∈ d.permissions, d.Grants p := by
  decide +kernel

theorem appModules_own : ∀ d ∈ appModules, ∀ x ∈ d.delegation, x.1 ∈ d.permissions := by
  decide +kernel

theorem PermissionDescriptor.mem_of_rule {d : PermissionDescriptor} (hd : d ∈ appModules)
    {p : String} {v : DelegationRule} (h : d.rule p = some v) : p ∈ d.permissions := by
  obtain ⟨before, after, hsplit, -⟩ := List.lookup_eq_some_iff.mp h
  have hmem : (p, v) ∈ d.delegation.reverse := by
    rw [hsplit]
    exact List.mem_append_right _ List.mem_cons_self
  exact appModules_own d hd (p, v) (List.mem_reverse.mp hmem)

/-- A permission is of one module. -/
theorem appModule_unique {d d' : PermissionDescriptor} (hd : d ∈ appModules)
    (hd' : d' ∈ appModules) {p : String} (hp : p ∈ d.permissions) (hp' : p ∈ d'.permissions) :
    d = d' := by
  have hnodup := List.nodup_flatMap.mp appModules_keys
  by_contra hne
  have hsymm : Std.Symm (Function.onFun List.Disjoint PermissionDescriptor.permissions) :=
    ⟨fun _ _ h => h.symm⟩
  exact hnodup.2.forall hd hd' hne hp hp'

theorem appModules_ownRules : PermissionRegistry.OwnRules appModules where
  agree d hd d' hd' p v w hv hw := by
    have hsame := appModule_unique hd hd' (PermissionDescriptor.mem_of_rule hd hv)
      (PermissionDescriptor.mem_of_rule hd' hw)
    subst hsame
    rw [hv] at hw
    exact Option.some.inj hw
  own d hd p hp d' hd' hrule := by
    rcases appModules_grants d hd p hp with h | ⟨h, -⟩
    · rw [h]
      rfl
    · rw [h]
      rfl

/-! ## The start of the application -/

theorem CrudOperation.action_mem (op : CrudOperation) :
    op.handler.2 ∈ ["create", "read", "edit", "delete"] := by
  cases op <;> simp [CrudOperation.handler]

theorem Route.permission_mem (route : Route) : ∀ action ∈ ["create", "read", "edit", "delete"],
    ∃ d ∈ appModules, route.path ++ ":" ++ action ∈ d.permissions := by
  cases route <;> decide +kernel

namespace Endpoint

/-- Every route but `hello` requires one permission, which a module has. -/
theorem permissions_cases (e : Endpoint) :
    e = .getHello ∨ ∃ p, e.permissions = some [p] ∧ ∃ d ∈ appModules, p ∈ d.permissions := by
  cases e with
  | getHello => exact .inl rfl
  | crud route op => exact .inr ⟨_, rfl, route.permission_mem _ op.action_mem⟩
  | _ => exact .inr ⟨_, rfl, by decide +kernel⟩

end Endpoint

/-- What the registry is once all modules have registered. -/
structure Started (r : PermissionRegistry) : Prop where
  /-- The guard does not fail on a route: it asks what the user has. -/
  guard : ∀ (e : Endpoint) (userId : ℤ),
    PermissionsGuard.canActivate r e.name e.permissions userId =
    match e.permissions with
    | none => return true
    | some required => do
      let userPermissions ← getEffectivePermissions userId
      return required.all fun p => userPermissions.contains p
  /-- The rule of a permission is that of its module, and only these have rules. -/
  rules : ∀ p v, r.rule p = some v ↔ ∃ d ∈ appModules, p ∈ d.permissions ∧ d.rule p = some v
  /-- Who can grant a permission holds one that is known, too. -/
  grantable : ∀ p, r.isKnownPermission p = true →
    ∃ q, r.grantableBy p = some q ∧ r.isKnownPermission q = true

section

variable {r : PermissionRegistry} {ds : List PermissionDescriptor}

theorem PermissionRegistry.Registers.known_iff (h : Registers ds r) {p : String} :
    r.isKnownPermission p = true ↔ ∃ d ∈ ds, p ∈ d.permissions := by
  obtain ⟨-, -, rfl⟩ := registers_iff.mp h
  rw [isKnownPermission, List.contains_iff_mem]
  show p ∈ [] ++ ds.flatMap (·.permissions) ↔ _
  rw [List.nil_append, List.mem_flatMap]

theorem PermissionRegistry.grantableBy_eq (r : PermissionRegistry) (p : String) :
    r.grantableBy p = (r.rule p).map (·.grantableBy) := rfl

theorem registers_of_perm (hperm : ds.Perm appModules) :
    PermissionRegistry.Registers ds (PermissionRegistry.empty.extended ds) :=
  PermissionRegistry.Registers.perm
    (PermissionRegistry.registers_iff.mpr ⟨appModules_keys, appModules_names, rfl⟩) hperm

theorem rule_iff (hperm : ds.Perm appModules) (h : PermissionRegistry.Registers ds r) {p : String}
    {v : DelegationRule} :
    r.rule p = some v ↔ ∃ d ∈ appModules, p ∈ d.permissions ∧ d.rule p = some v := by
  have hagree : Agree (ds.map PermissionDescriptor.rule) := PermissionRegistry.agree_rules.mpr
    fun d hd d' hd' => appModules_ownRules.agree d (hperm.mem_iff.mp hd) d' (hperm.mem_iff.mp hd')
  rw [h.rule_eq]
  constructor
  · intro hv
    obtain ⟨f, hf, hfv⟩ := exists_of_overlay hv
    obtain ⟨d, hd, rfl⟩ := List.mem_map.mp hf
    have hd' := hperm.mem_iff.mp hd
    exact ⟨d, hd', PermissionDescriptor.mem_of_rule hd' hfv, hfv⟩
  · rintro ⟨d, hd, -, hv⟩
    exact overlay_of_agree hagree (List.mem_map_of_mem (hperm.mem_iff.mpr hd)) hv

theorem started_of_registers (hperm : ds.Perm appModules)
    (h : PermissionRegistry.Registers ds r) : Started r := by
  refine ⟨fun e userId => ?_, fun p v => rule_iff hperm h, fun p hp => ?_⟩
  · rcases e.permissions_cases with rfl | ⟨p, hp, d, hd, hmem⟩
    · rfl
    · have hknown : r.isKnownPermission p = true :=
        h.known_iff.mpr ⟨d, hperm.mem_iff.mpr hd, hmem⟩
      unfold PermissionsGuard.canActivate
      rw [hp]
      simp [hknown]
  · obtain ⟨d, hd, hmem⟩ := h.known_iff.mp hp
    rcases appModules_grants d (hperm.mem_iff.mp hd) p hmem with hself | ⟨hdelete, htop⟩
    · have hrule := (rule_iff hperm h).mpr ⟨d, hperm.mem_iff.mp hd, hmem, hself⟩
      exact ⟨p, by rw [r.grantableBy_eq, hrule]; rfl, hp⟩
    · have hrule := (rule_iff hperm h).mpr ⟨d, hperm.mem_iff.mp hd, hmem, hdelete⟩
      refine ⟨_, by rw [r.grantableBy_eq, hrule]; rfl, h.known_iff.mpr ⟨d, hd, ?_⟩⟩
      exact PermissionDescriptor.mem_of_rule (hperm.mem_iff.mp hd) htop

/-- **The application starts**, in whatever order its modules do: no registration throws, and the
registry knows what the routes require. -/
theorem startup (hperm : ds.Perm appModules) :
    ∃ r, PermissionRegistry.Registers ds r ∧ Started r :=
  ⟨_, registers_of_perm hperm, started_of_registers hperm (registers_of_perm hperm)⟩

/-- The modules in the opposite order. -/
theorem startup_example :
    ∃ r, PermissionRegistry.Registers appModules.reverse r ∧ Started r :=
  startup (List.reverse_perm appModules)

/-! ## Escalation in the application -/

/-- A grantor has the permission, or the `delete` permission of its module. -/
theorem Started.grantor (hr : Started r) {p q : String} (h : r.grantableBy p = some q) :
    r.grantableBy q = some q ∧
      (q = p ∨ ∃ d ∈ appModules, p ∈ d.permissions ∧ q = d.moduleName ++ ":delete") := by
  rw [r.grantableBy_eq] at h
  obtain ⟨v, hv, rfl⟩ := Option.map_eq_some_iff.mp h
  obtain ⟨d, hd, hp, hrule⟩ := (hr.rules p v).mp hv
  rcases appModules_grants d hd p hp with hself | ⟨hdelete, htop⟩
  · rw [hself] at hrule
    cases hrule
    exact ⟨h, .inl rfl⟩
  · rw [hdelete] at hrule
    cases hrule
    have hmem := PermissionDescriptor.mem_of_rule hd htop
    refine ⟨?_, .inr ⟨d, hd, hp, rfl⟩⟩
    rw [r.grantableBy_eq, (hr.rules _ _).mpr ⟨d, hd, hmem, htop⟩]
    rfl

/-- **Escalation in the application**: whatever role operations some users carry out between
them, in any order and however they end, a permission that anybody has afterwards and had not
before is one that these users had, or one of a module in which they could delete. -/
theorem app_escalation (hperm : ds.Perm appModules) (h : PermissionRegistry.Registers ds r)
    {rt : Runtime} {S : Set ℤ} {db₀ db : Db} (hrun : RolesRun rt r S db₀ db) {u : ℤ} {p : String}
    (hp : p ∈ effectivePermissions rt db u) :
    p ∈ effectivePermissions rt db₀ u ∨ p ∈ heldBy rt S db₀ ∨
      ∃ d ∈ appModules, p ∈ d.permissions ∧ d.moduleName ++ ":delete" ∈ heldBy rt S db₀ := by
  have hr := started_of_registers hperm h
  rcases hrun.bound u hp with hold | hclosure
  · exact .inl hold
  · rw [RuleClosure.closure_of_idempotent fun p q hq => (hr.grantor hq).1] at hclosure
    rcases hclosure with hheld | ⟨q, hq, hheld⟩
    · exact .inr (.inl hheld)
    · rcases (hr.grantor hq).2 with rfl | ⟨d, hd, hmem, rfl⟩
      · exact .inr (.inl hheld)
      · exact .inr (.inr ⟨d, hd, hmem, hheld⟩)

end

/-- The registry of the application. -/
def appRegistry : PermissionRegistry := PermissionRegistry.empty.extended appModules

/-- Alice, the owner, makes a role that can delete accounts and gives it to Bob. -/
def deputizedByApp : Db :=
  after Runtime.closed ((RolesRequest.assignRole 1 5 2 1).body appRegistry)
    (after Runtime.closed
      ((RolesRequest.create 1 1 "Deputy" ["accounts:delete"]).body appRegistry) seeded)

theorem app_escalation_example :
    "accounts:delete" ∈ effectivePermissions Runtime.closed deputizedByApp 2 ∧
      ("accounts:delete" ∈ effectivePermissions Runtime.closed seeded 2 ∨
        "accounts:delete" ∈ heldBy Runtime.closed {1} seeded ∨
        ∃ d ∈ appModules, "accounts:delete" ∈ d.permissions ∧
          d.moduleName ++ ":delete" ∈ heldBy Runtime.closed {1} seeded) := by
  have hgained : "accounts:delete" ∈ effectivePermissions Runtime.closed deputizedByApp 2 :=
    mem_effectivePermissions.mpr (by decide +kernel)
  refine ⟨hgained, app_escalation (.refl _) (registers_of_perm (.refl _)) ?_ hgained⟩
  refine .tail (.single ⟨_, _, fun a ha => ?_, ends_after _ _ _⟩)
    ⟨_, _, fun a ha => ?_, ends_after _ _ _⟩
  · exact (Option.some.inj ha).symm
  · exact (Option.some.inj ha).symm

end EngineeringLab.FinanceTracker
