/-
What a failed registration leaves behind (`PermissionRegistryService.register`).

The module name is checked before anything is stored. The permission keys are checked one
by one inside the loop that stores them, after the module name has been stored. A call that
fails at the first check therefore changes nothing; one that fails at a key leaves the name
taken, and the keys before the clash too, without a descriptor that has them. The module can
then never be registered, so the difference shows (`failed_registration_iff`).

As long as no call fails at a key, the known keys are those of the descriptors
(`Consistent`).

Two registries are alike when no sequence of calls can tell them apart: the four queries
give the same now, and after any further registrations too, which also succeed or fail alike
(`Alike`). Comparing the collections themselves would be stronger than what anyone can see,
and comparing only the queries weaker, since a name that is taken shows at the next call
only.

In the application every descriptor has its own name and its own keys, so the condition
holds at every start, and the half registration does not come up
(`FinanceTracker.AppModule`).
-/
import EngineeringLab.Concurrency.Machine
import EngineeringLab.FinanceTracker.Permissions
import Mathlib.Data.List.Nodup

set_option autoImplicit false

open Concurrency

namespace EngineeringLab.FinanceTracker

namespace PermissionRegistry

/-! ## Queries and runs -/

def getAllPermissions (r : PermissionRegistry) : List String := r.allRegisteredKeys

def getPermissionsForModule (r : PermissionRegistry) (moduleName : String) :
    Option PermissionDescriptor :=
  r.descriptors.find? (·.moduleName = moduleName)

/-- `canDelegateAll`: `allowed` and `denied`. -/
def canDelegateAll (r : PermissionRegistry) (actorPermissions permissionsToGrant : List String) :
    Bool × List String :=
  let denied := r.denied actorPermissions permissionsToGrant
  (denied.length = 0, denied)

/-- Calls of `register`, one after the other; a call that throws does not end the run. -/
def registering : Machine PermissionRegistry PermissionDescriptor where
  start := empty
  step r d := some (r.register d).2

/-- What the calls of a run threw. -/
def outcomes : PermissionRegistry → List PermissionDescriptor → List (Except String Unit)
  | _, [] => []
  | r, d :: ds => (r.register d).1 :: outcomes (r.register d).2 ds

/-- No later call tells the two registries apart. -/
structure Alike (r r' : PermissionRegistry) : Prop where
  allPermissions : r.getAllPermissions = r'.getAllPermissions
  permissionsForModule : ∀ moduleName,
    r.getPermissionsForModule moduleName = r'.getPermissionsForModule moduleName
  known : ∀ p, r.isKnownPermission p = r'.isKnownPermission p
  delegate : ∀ actor p, r.canDelegate actor p = r'.canDelegate actor p
  outcomes : ∀ ds, r.outcomes ds = r'.outcomes ds

/-- The known keys are the keys of the modules' descriptors, each of one module. -/
structure KeysMatch (r : PermissionRegistry) : Prop where
  known : ∀ p, r.isKnownPermission p = true ↔
    ∃ moduleName d, r.getPermissionsForModule moduleName = some d ∧ p ∈ d.permissions
  one : ∀ p m m' d d', r.getPermissionsForModule m = some d → p ∈ d.permissions →
    r.getPermissionsForModule m' = some d' → p ∈ d'.permissions → m = m'

/-! ## What `register` does -/

/-- The keys are new, and none is repeated. -/
def Fresh (r : PermissionRegistry) (keys : List String) : Prop :=
  keys.Nodup ∧ ∀ key ∈ keys, key ∉ r.allRegisteredKeys

instance (r : PermissionRegistry) (keys : List String) : Decidable (r.Fresh keys) :=
  inferInstanceAs (Decidable (_ ∧ _))

section

variable {r : PermissionRegistry} {d : PermissionDescriptor} {moduleName : String}

theorem fresh_cons {key : String} {keys : List String} : r.Fresh (key :: keys) ↔
    key ∉ r.allRegisteredKeys ∧
      Fresh { r with allRegisteredKeys := r.allRegisteredKeys ++ [key] } keys := by
  simp only [Fresh, List.nodup_cons, List.forall_mem_cons, List.mem_append, List.mem_singleton]
  grind

/-- The loop over the keys ends when they are fresh; otherwise it throws, and only
`allRegisteredKeys` is not what it was. -/
theorem addKeys_cases (moduleName : String) (keys : List String) (r : PermissionRegistry) :
    (r.Fresh keys ∧ addKeys moduleName keys r =
        (.ok (), { r with allRegisteredKeys := r.allRegisteredKeys ++ keys })) ∨
      (¬ r.Fresh keys ∧ ∃ e stored, addKeys moduleName keys r =
        (.error e, { r with allRegisteredKeys := stored })) := by
  induction keys generalizing r with
  | nil =>
      refine .inl ⟨⟨List.nodup_nil, by simp⟩, ?_⟩
      rw [addKeys, List.append_nil]
  | cons key keys ih =>
      rw [fresh_cons, addKeys]
      by_cases htaken : r.allRegisteredKeys.contains key = true
      · rw [if_pos htaken]
        refine .inr ⟨fun h => h.1 ?_, _, _, rfl⟩
        exact List.contains_iff_mem.mp htaken
      · rw [if_neg htaken]
        have hnew : key ∉ r.allRegisteredKeys := fun h => htaken (List.contains_iff_mem.mpr h)
        rcases ih { r with allRegisteredKeys := r.allRegisteredKeys ++ [key] } with
          ⟨hfresh, hrun⟩ | ⟨hclash, e, stored, hrun⟩
        · refine .inl ⟨⟨hnew, hfresh⟩, ?_⟩
          rw [hrun, List.append_assoc, List.singleton_append]
        · exact .inr ⟨fun h => hclash h.2, e, stored, hrun⟩

theorem register_taken (h : d.moduleName ∈ r.registeredModules) :
    ∃ e, r.register d = (.error e, r) := by
  unfold register
  rw [if_pos (List.contains_iff_mem.mpr h)]
  exact ⟨_, rfl⟩

theorem register_fresh (hname : d.moduleName ∉ r.registeredModules)
    (hkeys : r.Fresh d.permissions) :
    r.register d = (.ok (), {
      descriptors := r.descriptors ++ [d]
      allRegisteredKeys := r.allRegisteredKeys ++ d.permissions
      registeredModules := r.registeredModules ++ [d.moduleName]
      delegationMap := d.delegation.reverse ++ r.delegationMap }) := by
  unfold register
  rw [if_neg (fun h => hname (List.contains_iff_mem.mp h))]
  rcases addKeys_cases d.moduleName d.permissions
      { r with registeredModules := r.registeredModules ++ [d.moduleName] } with
    ⟨-, hrun⟩ | ⟨hclash, -⟩
  · rw [hrun]
  · exact absurd hkeys hclash

/-- A clash of keys is found after the name was stored. -/
theorem register_clash (hname : d.moduleName ∉ r.registeredModules)
    (hkeys : ¬ r.Fresh d.permissions) :
    ∃ e stored, r.register d = (.error e, { r with
      allRegisteredKeys := stored
      registeredModules := r.registeredModules ++ [d.moduleName] }) := by
  unfold register
  rw [if_neg (fun h => hname (List.contains_iff_mem.mp h))]
  rcases addKeys_cases d.moduleName d.permissions
      { r with registeredModules := r.registeredModules ++ [d.moduleName] } with
    ⟨hfresh, -⟩ | ⟨-, e, stored, hrun⟩
  · exact absurd hfresh hkeys
  · exact ⟨e, stored, by rw [hrun]⟩

/-! ## A call that fails -/

/-- Whatever fails, fails before anything is stored: the name of the module is taken, or
its keys are fresh. -/
def NoClash (r : PermissionRegistry) (d : PermissionDescriptor) : Prop :=
  d.moduleName ∈ r.registeredModules ∨ r.Fresh d.permissions

instance (r : PermissionRegistry) (d : PermissionDescriptor) : Decidable (r.NoClash d) :=
  inferInstanceAs (Decidable (_ ∨ _))

/-- After a clash of keys the module can no longer be registered, by any descriptor. -/
theorem not_alike_of_clash (h : ¬ r.NoClash d) : ¬ Alike (r.register d).2 r := by
  rw [NoClash, not_or] at h
  obtain ⟨hname, hkeys⟩ := h
  intro halike
  obtain ⟨e, stored, hrun⟩ := register_clash hname hkeys
  have hlater := halike.outcomes [⟨d.moduleName, [], []⟩]
  rw [hrun] at hlater
  obtain ⟨e', htaken⟩ := @register_taken { r with
      allRegisteredKeys := stored
      registeredModules := r.registeredModules ++ [d.moduleName] } ⟨d.moduleName, [], []⟩
    (List.mem_append_right _ (List.mem_singleton.mpr rfl))
  have hfree := @register_fresh r ⟨d.moduleName, [], []⟩ hname ⟨List.nodup_nil, by simp⟩
  simp only [outcomes, htaken, hfree] at hlater
  cases hlater

/-- A call that throws changes nothing exactly where no keys clash. -/
theorem unchanged_iff :
    ((∃ e, (r.register d).1 = .error e) → Alike (r.register d).2 r) ↔ r.NoClash d := by
  constructor
  · intro hunchanged
    by_contra hclash
    apply not_alike_of_clash hclash
    apply hunchanged
    rw [NoClash, not_or] at hclash
    obtain ⟨e, stored, hrun⟩ := register_clash hclash.1 hclash.2
    rw [hrun]
    exact ⟨e, rfl⟩
  · rintro hclash ⟨e, he⟩
    by_cases htaken : d.moduleName ∈ r.registeredModules
    · obtain ⟨e', hrun⟩ := register_taken htaken
      rw [hrun]
      constructor <;> intros <;> rfl
    · rw [register_fresh htaken (hclash.resolve_left htaken)] at he
      cases he

/-! ## Runs without a clash -/

/-- The keys and the names are those of the descriptors, and none is there twice. -/
structure Consistent (r : PermissionRegistry) : Prop where
  keys : r.allRegisteredKeys = r.descriptors.flatMap (·.permissions)
  names : r.registeredModules = r.descriptors.map (·.moduleName)
  keys_nodup : r.allRegisteredKeys.Nodup
  names_nodup : r.registeredModules.Nodup

theorem consistent_empty : empty.Consistent := by
  constructor <;> simp [empty]

theorem Consistent.register (hr : r.Consistent) (h : r.NoClash d) :
    (r.register d).2.Consistent := by
  by_cases htaken : d.moduleName ∈ r.registeredModules
  · obtain ⟨e, hrun⟩ := register_taken htaken
    rw [hrun]
    exact hr
  · have hfresh := h.resolve_left htaken
    rw [register_fresh htaken hfresh]
    refine ⟨?_, ?_, ?_, ?_⟩
    · simp [hr.keys]
    · simp [hr.names]
    · apply List.nodup_append'.mpr
      refine ⟨hr.keys_nodup, hfresh.1, fun key hold hnew => ?_⟩
      exact hfresh.2 key hnew hold
    · apply List.nodup_append'.mpr
      refine ⟨hr.names_nodup, List.nodup_singleton _, fun name hold hnew => ?_⟩
      rw [List.mem_singleton.mp hnew] at hold
      exact htaken hold

/-- The descriptor of a module is the one that the lookup by its name finds. -/
theorem Consistent.getPermissionsForModule_iff (hr : r.Consistent) :
    r.getPermissionsForModule moduleName = some d ↔
      d ∈ r.descriptors ∧ d.moduleName = moduleName := by
  unfold getPermissionsForModule
  constructor
  · intro h
    exact ⟨List.mem_of_find?_eq_some h, by simpa using List.find?_some h⟩
  · rintro ⟨hd, rfl⟩
    cases h : r.descriptors.find? (·.moduleName = d.moduleName) with
    | none =>
        have hne := List.find?_eq_none.mp h d hd
        simp at hne
    | some d' =>
        have hname : d'.moduleName = d.moduleName := by simpa using List.find?_some h
        have hnodup := hr.names_nodup
        rw [hr.names] at hnodup
        rw [List.inj_on_of_nodup_map hnodup (List.mem_of_find?_eq_some h) hd hname]

theorem Consistent.keysMatch (hr : r.Consistent) : r.KeysMatch := by
  constructor
  · intro p
    rw [isKnownPermission, List.contains_iff_mem, hr.keys, List.mem_flatMap]
    simp only [hr.getPermissionsForModule_iff]
    constructor
    · rintro ⟨d, hd, hp⟩
      exact ⟨d.moduleName, d, ⟨hd, rfl⟩, hp⟩
    · rintro ⟨-, d, ⟨hd, -⟩, hp⟩
      exact ⟨d, hd, hp⟩
  · intro p m m' d d' hm hp hm' hp'
    rw [hr.getPermissionsForModule_iff] at hm hm'
    obtain ⟨hd, rfl⟩ := hm
    obtain ⟨hd', rfl⟩ := hm'
    have hnodup := hr.keys_nodup
    rw [hr.keys, List.nodup_flatMap] at hnodup
    by_contra hne
    have hsymm : Std.Symm (Function.onFun List.Disjoint PermissionDescriptor.permissions) :=
      ⟨fun _ _ h => h.symm⟩
    have hdisjoint := hnodup.2.forall hd hd' (fun heq => hne (by rw [heq]))
    exact hdisjoint hp hp'

/-- In a run without a clash the keys stay those of the descriptors. -/
theorem consistent_of_run {ds : List PermissionDescriptor} (hrun : registering.run ds = some r)
    (hclash : registering.Meets NoClash empty ds) : r.Consistent := by
  refine Machine.invariant_of_meets (fun r d r' hr hok hstep => ?_) consistent_empty hclash hrun
  cases hstep
  exact hr.register hok

/-- **A failed registration leaves no trace exactly where it fails at the module name**,
or does not fail; and in a run of such calls only, the known keys are those of the modules'
descriptors. -/
theorem failed_registration_iff {ds : List PermissionDescriptor}
    (hrun : registering.run ds = some r) :
    (∀ d, ((∃ e, (r.register d).1 = .error e) → Alike (r.register d).2 r) ↔ r.NoClash d) ∧
      (registering.Meets NoClash empty ds → r.KeysMatch) :=
  ⟨fun _ => unchanged_iff, fun hclash => (consistent_of_run hrun hclash).keysMatch⟩

end

/-! ### A second module that lists a key of the first -/

/-- A module with one key of its own and one that the accounts module has. -/
def reportsPermissions : PermissionDescriptor where
  moduleName := "reports"
  permissions := ["reports:read", "accounts:read"]
  delegation := [("reports:read", ⟨"reports:read"⟩)]

/-- A second descriptor under the name of the first. -/
def accountsAgain : PermissionDescriptor where
  moduleName := "accounts"
  permissions := ["accounts:audit"]
  delegation := []

/-- A run with a call that is refused: it leaves no trace, and the keys match after it. -/
theorem failed_registration_iff_example :
    ∃ r, registering.run [accountsPermissions, accountsAgain] = some r ∧
      (∃ e, (accountsRegistry.register accountsAgain).1 = .error e) ∧
      Alike (accountsRegistry.register accountsAgain).2 accountsRegistry ∧ r.KeysMatch := by
  have hfirst : registering.run [accountsPermissions] = some accountsRegistry := rfl
  have hboth : registering.run [accountsPermissions, accountsAgain] =
      some (accountsRegistry.register accountsAgain).2 := rfl
  have hrefused : ∃ e, (accountsRegistry.register accountsAgain).1 = .error e := ⟨_, rfl⟩
  exact ⟨_, hboth, hrefused, ((failed_registration_iff hfirst).1 _).mpr (by decide) hrefused,
    (failed_registration_iff hboth).2 (by decide)⟩

/-- **A failed registration is half done**: its first key is known, no descriptor has it,
and the module cannot be registered without the clashing key either. -/
theorem half_registered :
    registering.run [accountsPermissions] = some accountsRegistry ∧
      (∃ e, (accountsRegistry.register reportsPermissions).1 = .error e) ∧
      ¬ Alike (accountsRegistry.register reportsPermissions).2 accountsRegistry ∧
      ¬ (accountsRegistry.register reportsPermissions).2.KeysMatch := by
  refine ⟨rfl, ⟨_, rfl⟩, not_alike_of_clash (by decide), fun hmatch => ?_⟩
  obtain ⟨moduleName, d, hd, hp⟩ := (hmatch.known "reports:read").mp (by decide)
  have hmem : d ∈ [accountsPermissions] := List.mem_of_find?_eq_some hd
  rw [List.mem_singleton.mp hmem] at hp
  revert hp
  decide

end PermissionRegistry

end EngineeringLab.FinanceTracker
