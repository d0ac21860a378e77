/-
Delegation rules and the order in which the modules register.

Module names and permission keys are checked when a module registers; its delegation
records are not: `Object.assign` lays them over those that are there (`overlay`). A
descriptor with a rule for a key of another module so replaces that module's rule, or gives
it one that it does not have, and which rule applies in the end depends on which module
registered last (`rule_overridden`). With rules that agree, and that a module with the key
declares too, neither can happen, and otherwise one of the two does (`delegation_iff`).

The registration of modules is a loop over their descriptors in the order of the imports in
`app.module.ts`, which is nobody's decision about permissions. What the guard of the roles
service reads afterwards is the record that the assignments have left. As a mathematical
object it is a family of partial functions laid over each other, and whether the order shows
is a question about the family (`Order.Overlay`).
-/
import EngineeringLab.FinanceTracker.Registration
import EngineeringLab.Order.Overlay

set_option autoImplicit false

open Concurrency Overlay

namespace EngineeringLab.FinanceTracker

/-- The rule that a descriptor has for a permission. -/
def PermissionDescriptor.rule (d : PermissionDescriptor) (p : String) : Option DelegationRule :=
  d.delegation.reverse.lookup p

namespace PermissionRegistry

/-- The rule that `canDelegate` applies. -/
def rule (r : PermissionRegistry) (p : String) : Option DelegationRule := r.delegationMap.lookup p

/-- The call does not throw. -/
def Succeeds (r : PermissionRegistry) (d : PermissionDescriptor) : Prop := (r.register d).1 = .ok ()

instance (r : PermissionRegistry) (d : PermissionDescriptor) : Decidable (r.Succeeds d) :=
  inferInstanceAs (Decidable (_ = _))

/-- The descriptors register one after the other, and none of the calls throws. -/
def Registers (ds : List PermissionDescriptor) (r : PermissionRegistry) : Prop :=
  registering.run ds = some r ∧ registering.Meets Succeeds empty ds

/-- Both registries allow the same. -/
structure SameVerdicts (r r' : PermissionRegistry) : Prop where
  canDelegate : ∀ actor p, r.canDelegate actor p = r'.canDelegate actor p
  canDelegateAll : ∀ actor ps, r.canDelegateAll actor ps = r'.canDelegateAll actor ps

/-- The rules of the descriptors do not get in each other's way: two rules for one
permission are the same, and a module whose permission another one has a rule for has one. -/
structure OwnRules (ds : List PermissionDescriptor) : Prop where
  agree : ∀ d ∈ ds, ∀ d' ∈ ds, ∀ p v w, d.rule p = some v → d'.rule p = some w → v = w
  own : ∀ d ∈ ds, ∀ p ∈ d.permissions, ∀ d' ∈ ds, (d'.rule p).isSome → (d.rule p).isSome

/-! ## Verdicts and rules -/

section

variable {r r' : PermissionRegistry}

theorem canDelegate_rule {actor : List String} {p : String} :
    r.canDelegate actor p = true ↔ ∃ v, r.rule p = some v ∧ v.grantableBy ∈ actor := by
  unfold canDelegate rule
  cases r.delegationMap.lookup p <;> simp

/-- The verdicts for all actors are as much as the rules. -/
theorem sameVerdicts_iff : SameVerdicts r r' ↔ r.rule = r'.rule := by
  constructor
  · intro h
    have hle : ∀ {s s' : PermissionRegistry}, SameVerdicts s s' → ∀ p v,
        s.rule p = some v → s'.rule p = some v := by
      intro s s' hs p v hv
      -- an actor with nothing but the delegator permission
      have hallowed := canDelegate_rule.mpr ⟨v, hv, List.mem_singleton.mpr rfl⟩
      rw [hs.canDelegate] at hallowed
      obtain ⟨w, hw, hactor⟩ := canDelegate_rule.mp hallowed
      rw [hw]
      congr
      cases v
      cases w
      congr
      exact List.mem_singleton.mp hactor
    have hback : SameVerdicts r' r := ⟨fun a p => (h.canDelegate a p).symm,
      fun a ps => (h.canDelegateAll a ps).symm⟩
    funext p
    apply Option.ext
    exact fun v => ⟨hle h p v, hle hback p v⟩
  · intro h
    have hone : ∀ actor p, r.canDelegate actor p = r'.canDelegate actor p := by
      intro actor p
      rw [Bool.eq_iff_iff, canDelegate_rule, canDelegate_rule, h]
    refine ⟨hone, fun actor ps => ?_⟩
    simp [canDelegateAll, denied, hone]

end

/-! ## A run of successful calls -/

/-- The registry after the descriptors were added. -/
def extended (r : PermissionRegistry) (ds : List PermissionDescriptor) : PermissionRegistry where
  descriptors := r.descriptors ++ ds
  allRegisteredKeys := r.allRegisteredKeys ++ ds.flatMap (·.permissions)
  registeredModules := r.registeredModules ++ ds.map (·.moduleName)
  delegationMap := ds.reverse.flatMap (·.delegation.reverse) ++ r.delegationMap

section

variable {r r' : PermissionRegistry} {d : PermissionDescriptor} {ds ds' : List PermissionDescriptor}

theorem succeeds_iff :
    r.Succeeds d ↔ d.moduleName ∉ r.registeredModules ∧ r.Fresh d.permissions := by
  unfold Succeeds
  by_cases hname : d.moduleName ∈ r.registeredModules
  · obtain ⟨e, hrun⟩ := register_taken hname
    rw [hrun]
    exact ⟨fun h => (by cases h), fun h => absurd hname h.1⟩
  · by_cases hkeys : r.Fresh d.permissions
    · rw [register_fresh hname hkeys]
      exact ⟨fun _ => ⟨hname, hkeys⟩, fun _ => rfl⟩
    · obtain ⟨e, stored, hrun⟩ := register_clash hname hkeys
      rw [hrun]
      exact ⟨fun h => (by cases h), fun h => absurd h.2 hkeys⟩

theorem register_of_succeeds (h : r.Succeeds d) : (r.register d).2 = r.extended [d] := by
  obtain ⟨hname, hkeys⟩ := succeeds_iff.mp h
  rw [register_fresh hname hkeys]
  simp [extended]

theorem extended_cons : (r.extended [d]).extended ds = r.extended (d :: ds) := by
  simp [extended, List.append_assoc]

/-- Nothing throws when no name and no key is there twice, and the order plays no part in
that. -/
theorem runs_iff (hkeys : r.allRegisteredKeys.Nodup) (hnames : r.registeredModules.Nodup) :
    (registering.runFrom r ds = some r' ∧ registering.Meets Succeeds r ds) ↔
      (r.extended ds).allRegisteredKeys.Nodup ∧ (r.extended ds).registeredModules.Nodup ∧
        r' = r.extended ds := by
  induction ds generalizing r with
  | nil =>
      simp only [Machine.runFrom, Machine.Meets, extended, Option.some.injEq]
      simp [hkeys, hnames, eq_comm]
  | cons d ds ih =>
      have hstep : registering.runFrom r (d :: ds) = registering.runFrom (r.register d).2 ds := rfl
      have hmeets : registering.Meets Succeeds r (d :: ds) ↔
          r.Succeeds d ∧ registering.Meets Succeeds (r.register d).2 ds := by
        simp [Machine.Meets, registering]
      rw [hstep, hmeets, ← extended_cons]
      by_cases hd : r.Succeeds d
      -- The first registration succeeds: the registry it leaves has no duplicate, and the rest
      -- runs from there.
      · rw [register_of_succeeds hd]
        obtain ⟨hname, hfresh⟩ := succeeds_iff.mp hd
        have hkeys' : (r.extended [d]).allRegisteredKeys.Nodup := by
          have := hfresh.2
          simp only [extended, List.flatMap_cons, List.flatMap_nil, List.append_nil]
          apply List.nodup_append'.mpr
          exact ⟨hkeys, hfresh.1, fun key hold hnew => this key hnew hold⟩
        have hnames' : (r.extended [d]).registeredModules.Nodup := by
          simp only [extended, List.map_cons, List.map_nil]
          apply List.nodup_append'.mpr
          refine ⟨hnames, List.nodup_singleton _, fun name hold hnew => hname ?_⟩
          rwa [List.mem_singleton.mp hnew] at hold
        rw [← ih hkeys' hnames']
        exact ⟨fun h => ⟨h.1, h.2.2⟩, fun h => ⟨h.1, hd, h.2⟩⟩
      -- It throws: what it repeats is there twice at the end as well.
      · refine ⟨fun h => absurd h.2.1 hd, fun h => absurd ?_ hd⟩
        obtain ⟨hk, hn, -⟩ := h
        rw [extended_cons] at hk hn
        simp only [extended, List.flatMap_cons, List.map_cons] at hk hn
        rw [succeeds_iff]
        simp only [Fresh, List.nodup_append, List.nodup_cons, List.mem_append, List.mem_cons] at *
        grind

theorem registers_iff : Registers ds r ↔
    (ds.flatMap (·.permissions)).Nodup ∧ (ds.map (·.moduleName)).Nodup ∧ r = empty.extended ds := by
  have h := @runs_iff empty r ds List.nodup_nil List.nodup_nil
  simpa [Registers, Machine.run, registering, extended, empty] using h

/-- Whether a call throws does not depend on the order. -/
theorem Registers.perm (h : Registers ds r) (hperm : ds'.Perm ds) :
    Registers ds' (empty.extended ds') := by
  obtain ⟨hkeys, hnames, -⟩ := registers_iff.mp h
  apply registers_iff.mpr
  refine ⟨?_, ?_, rfl⟩
  · rwa [(hperm.flatMap_right _).nodup_iff]
  · rwa [(hperm.map _).nodup_iff]

/-! ## Which rule applies -/

/-- The delegation records are laid over each other in the order of registration. -/
theorem rule_extended (p : String) :
    (empty.extended ds).rule p = overlay (ds.map PermissionDescriptor.rule) p := by
  show ((ds.reverse.flatMap fun d : PermissionDescriptor => d.delegation.reverse) ++ []).lookup p =
    _
  rw [List.append_nil]
  induction ds with
  | nil => rfl
  | cons d ds ih =>
      rw [List.map_cons, overlay_cons, ← ih, List.reverse_cons, List.flatMap_append,
        List.lookup_append, List.flatMap_singleton]
      rfl

theorem Registers.rule_eq (h : Registers ds r) :
    r.rule = overlay (ds.map PermissionDescriptor.rule) := by
  obtain ⟨-, -, rfl⟩ := registers_iff.mp h
  funext p
  exact rule_extended p

theorem agree_rules : Agree (ds.map PermissionDescriptor.rule) ↔
    ∀ d ∈ ds, ∀ d' ∈ ds, ∀ p v w, d.rule p = some v → d'.rule p = some w → v = w := by
  unfold Agree
  rw [List.forall_mem_map]
  simp only [List.forall_mem_map]

/-- The verdicts are the same in every order exactly when the rules agree. -/
theorem order_iff (h : Registers ds r) :
    (∀ ds', ds'.Perm ds → ∃ r', Registers ds' r' ∧ SameVerdicts r r') ↔
      Agree (ds.map PermissionDescriptor.rule) := by
  rw [← overlay_perm_iff]
  constructor
  · intro hall fs hperm
    obtain ⟨ds', rfl, hds⟩ : Relation.Comp (· = List.map PermissionDescriptor.rule ·) List.Perm
        fs ds := by
      rw [List.eq_map_comp_perm]
      exact hperm
    obtain ⟨r', hr', hsame⟩ := hall ds' hds
    rw [← hr'.rule_eq, ← h.rule_eq]
    exact (sameVerdicts_iff.mp hsame).symm
  · intro hall ds' hperm
    refine ⟨_, h.perm hperm, sameVerdicts_iff.mpr ?_⟩
    rw [h.rule_eq, (h.perm hperm).rule_eq]
    exact (hall _ (hperm.map _)).symm

/-- **The rules depend on the modules and not on their order, and every module has its
own, exactly when the descriptors keep to that.** -/
theorem delegation_iff (h : Registers ds r) :
    ((∀ ds', ds'.Perm ds → ∃ r', Registers ds' r' ∧ SameVerdicts r r') ∧
      ∀ d ∈ ds, ∀ p ∈ d.permissions, r.rule p = d.rule p) ↔ OwnRules ds := by
  rw [order_iff h, h.rule_eq]
  constructor
  · rintro ⟨hagree, hown⟩
    refine ⟨agree_rules.mp hagree, fun d hd p hp d' hd' hsome => ?_⟩
    obtain ⟨v, hv⟩ := Option.isSome_iff_exists.mp hsome
    have hmem := List.mem_map_of_mem (f := PermissionDescriptor.rule) hd'
    rw [← hown d hd p hp, overlay_of_agree hagree hmem hv]
    rfl
  · rintro ⟨hagree, hown⟩
    have hagree' := agree_rules.mpr hagree
    refine ⟨hagree', fun d hd p hp => ?_⟩
    cases hrule : d.rule p with
    | some v => exact overlay_of_agree hagree' (List.mem_map_of_mem hd) hrule
    | none =>
        -- another module with a rule for `p` would need one here
        by_contra hsome
        obtain ⟨v, hv⟩ := Option.ne_none_iff_exists'.mp hsome
        obtain ⟨f, hf, hfv⟩ := exists_of_overlay hv
        obtain ⟨d', hd', rfl⟩ := List.mem_map.mp hf
        have h' := hown d hd p hp d' hd' (by rw [hfv]; rfl)
        rw [hrule] at h'
        cases h'

end

/-! ### A module with a rule for a key of another -/

/-- `bankSyncPermissions`. -/
def bankSyncPermissions : PermissionDescriptor where
  moduleName := "bank-sync"
  permissions := ["bank-sync:execute", "bank-sync:read"]
  delegation :=
    [("bank-sync:execute", ⟨"bank-sync:execute"⟩), ("bank-sync:read", ⟨"bank-sync:read"⟩)]

theorem registers_accountsAndBankSync : Registers [accountsPermissions, bankSyncPermissions]
    (empty.extended [accountsPermissions, bankSyncPermissions]) := by
  apply registers_iff.mpr
  refine ⟨by decide, by decide, rfl⟩

/-- The equivalence for the descriptors of the accounts and the bank sync modules, which
register without a failure. -/
theorem delegation_iff_example :
    ((∀ ds', ds'.Perm [accountsPermissions, bankSyncPermissions] → ∃ r', Registers ds' r' ∧
        SameVerdicts (empty.extended [accountsPermissions, bankSyncPermissions]) r') ∧
      ∀ d ∈ [accountsPermissions, bankSyncPermissions], ∀ p ∈ d.permissions,
        (empty.extended [accountsPermissions, bankSyncPermissions]).rule p = d.rule p) ↔
      OwnRules [accountsPermissions, bankSyncPermissions] :=
  delegation_iff registers_accountsAndBankSync

/-- A module that lets whoever may read accounts grant their deletion. -/
def auditPermissions : PermissionDescriptor where
  moduleName := "audit"
  permissions := ["audit:read"]
  delegation := [("audit:read", ⟨"audit:read"⟩), ("accounts:delete", ⟨"accounts:read"⟩)]

/-- **Another module replaces the rule of `accounts:delete`**, if it registers later.
Registered in the other order, the two descriptors give the rule of the accounts module, and
no call of either order fails. -/
theorem rule_overridden :
    ∃ r r', Registers [accountsPermissions, auditPermissions] r ∧
      Registers [auditPermissions, accountsPermissions] r' ∧
      r.rule "accounts:delete" ≠ accountsPermissions.rule "accounts:delete" ∧
      r.canDelegate ["accounts:read"] "accounts:delete" = true ∧
      r'.canDelegate ["accounts:read"] "accounts:delete" = false := by
  have hregisters : Registers [accountsPermissions, auditPermissions] _ :=
    registers_iff.mpr ⟨by decide, by decide, rfl⟩
  exact ⟨_, _, hregisters, hregisters.perm (List.Perm.swap _ _ _), by decide, by decide, by decide⟩

end PermissionRegistry

end EngineeringLab.FinanceTracker
