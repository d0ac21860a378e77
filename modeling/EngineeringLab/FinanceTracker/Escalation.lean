/-
No privilege escalation through role management.

A permission reaches a user through a role that an assignment links to, and a request
of the roles service can add to that in three ways: it puts a permission into a role
that the user has, it gives the user a role, or it makes a role (which nobody has
yet). Each of them is preceded by `checkDelegation`, so whatever a user gains in one
request is grantable by a permission that the actor has before it
(`RolesRequest.gains`). Over a run this makes the closure of what the actors held at the
start under the delegation rules an upper bound (`no_escalation`).

The abstract side is `Order.RuleClosure`: rules with one premise each, and the least set
that is closed under them. The concrete side is one lemma for each kind of request, which
says what the effective permissions of any user are afterwards. Between them stands the rule
of runs: if the sets of all actors are within a closed set before a request, they are within
it afterwards.

Requests run one at a time here, each from its first call to its last, and may fail at any
of them. What interleaving adds is the subject of `FinanceTracker.RoleUpdates`.
-/
import EngineeringLab.FinanceTracker.Roles
import EngineeringLab.Order.RuleClosure
import Mathlib.Data.Set.Lattice
import Mathlib.Logic.Relation

set_option autoImplicit false

open Concurrency

namespace EngineeringLab.FinanceTracker

/-! ## What the calls change -/

section

variable {registry : PermissionRegistry} {t : Tables} {db db' : Db}

/-- What the user `actor` may hand out: some permission of theirs grants `p`. -/
def Tables.grantable (registry : PermissionRegistry) (t : Tables) (actor : ℤ) (p : String) : Prop :=
  ∃ q, registry.grantableBy p = some q ∧ t.effective actor q

instance (registry : PermissionRegistry) (t : Tables) (actor : ℤ) (p : String) :
    Decidable (t.grantable registry actor p) :=
  match h : registry.grantableBy p with
  | none => .isFalse fun ⟨q, hq, _⟩ => by rw [h] at hq; cases hq
  | some g => decidable_of_iff (t.effective actor g)
    ⟨fun hg => ⟨g, h, hg⟩, fun ⟨q, hq, hheld⟩ => by rw [h] at hq; cases hq; exact hheld⟩

/-- Taking assignments or roles away gives nobody anything. -/
theorem Tables.effective_filter {m : Model} {keep : Row → Bool} {u : ℤ} {p : String}
    (h : Tables.effective (Function.update t m ((t m).filter keep)) u p) : t.effective u p := by
  obtain ⟨a, ha, huser, role, hrole, hid, hp⟩ := h
  exact ⟨a, Tables.filtered_subset _ ha, huser, role, Tables.filtered_subset _ hrole, hid, hp⟩

/-- A new role is nobody's: an assignment links to a role that exists. -/
theorem RolesService.Created.effective {householdId : ℤ} {permissions : List String} {row : Row}
    (h : Created householdId permissions row db db') {u : ℤ} {p : String}
    (hp : db'.rows.effective u p) : db.rows.effective u p := by
  obtain ⟨a, ha, huser, role, hrole, hid, hp⟩ := hp
  have hold : ∀ m, m ≠ .customRole → db'.rows m = db.rows m := by
    intro m hm
    rw [h.rows, Function.update_of_ne hm]
  rw [hold _ (by decide)] at ha
  have hsub : db.rows .customRole ⊆ db'.rows .customRole := by
    rw [h.rows]
    exact Tables.subset_appended _
  rcases db.valid.refs _ a ha ⟨.roleId, .customRole, "role", "assignments", .restrict⟩
    (by simp [Model.foreignKeys]) with hnull | ⟨old, hmem, hold_id⟩
  · exact absurd (hid.trans hnull) (db'.valid.id_ne_null hrole)
  · have heq : old = role := db'.valid.eq_of_id (hsub hmem) hrole (hold_id.trans hid.symm)
    exact ⟨a, ha, huser, role, heq ▸ hmem, hid, hp⟩

/-- An update of a role gives its users what it lists. -/
theorem RolesService.Changed.effective {id : ℤ} {permissions : Option (List String)}
    {f : Row → Row} (h : Changed id permissions f db db') {u : ℤ} {p : String}
    (hp : db'.rows.effective u p) : db.rows.effective u p ∨
      ∃ l, permissions = some l ∧ p ∈ l ∧ ∀ role ∈ db.rows .customRole, role .id = .int id →
        p ∈ (role .permissions).strings → db.rows.effective u p := by
  obtain ⟨a, ha, huser, role', hrole', hid, hp⟩ := hp
  rw [h.rows, Function.update_of_ne (by decide)] at ha
  rw [h.rows, Function.update_self] at hrole'
  obtain ⟨role, hrole, rfl⟩ := List.mem_map.mp hrole'
  rw [h.keeps role hrole .id (by decide) (by decide)] at hid
  by_cases hthis : role .id = .int id
  · rw [h.permissions role hrole hthis] at hp
    cases permissions with
    | none => exact .inl ⟨a, ha, huser, role, hrole, hid, hp⟩
    | some l =>
        refine .inr ⟨l, rfl, hp, fun old hold hold_id hmem => ?_⟩
        have heq : old = role := db.valid.eq_of_id hold hrole (hold_id.trans hthis.symm)
        exact ⟨a, ha, huser, role, hrole, hid, heq ▸ hmem⟩
  · rw [h.other role hrole hthis] at hp
    exact .inl ⟨a, ha, huser, role, hrole, hid, hp⟩

/-- An assignment gives its user the permissions of its role. -/
theorem RolesService.Assigned.effective {userId roleId : ℤ} {row : Row}
    (h : Assigned userId roleId row db db') {u : ℤ} {p : String}
    (hp : db'.rows.effective u p) : db.rows.effective u p ∨
      ∃ role ∈ db.rows .customRole, role .id = .int roleId ∧ p ∈ (role .permissions).strings := by
  obtain ⟨a, ha, huser, role, hrole, hid, hp⟩ := hp
  rw [h.rows, Function.update_of_ne (by decide)] at hrole
  rw [h.rows, Function.update_self, List.mem_append, List.mem_singleton] at ha
  rcases ha with ha | rfl
  · exact .inl ⟨a, ha, huser, role, hrole, hid, hp⟩
  · exact .inr ⟨role, hrole, hid.trans h.role, hp⟩

end

/-! ## What one request gives away -/

section

variable {rt : Runtime} {registry : PermissionRegistry} {db db' : Db}

/-- Whatever a user has after, they had before or `actor` could hand out before. -/
def Gain (registry : PermissionRegistry) (actor : Option ℤ) (db db' : Db) : Prop :=
  ∀ u p, db'.rows.effective u p →
    db.rows.effective u p ∨ ∃ a, actor = some a ∧ db.rows.grantable registry a p

theorem Gain.of_rows {actor : Option ℤ} (h : db'.rows = db.rows) : Gain registry actor db db' :=
  fun u p hp => .inl (by rwa [h] at hp)

theorem Gain.of_filter {actor : Option ℤ} {m : Model} {keep : Row → Bool}
    (h : db'.rows = Function.update db.rows m ((db.rows m).filter keep)) :
    Gain registry actor db db' := fun _ _ hp => .inl (Tables.effective_filter (h ▸ hp))

/-- The query throws, or gives what the user has; it changes nothing. -/
theorem getEffectivePermissions_always {userId : ℤ}
    {Q : Except ServiceError (List String) → Db → Prop} (herror : ∀ e, Q (.error e) db)
    (hok : ∀ l, (∀ p, p ∈ l ↔ db.rows.effective userId p) → Q (.ok l) db) :
    (getEffectivePermissions userId).Always rt.Exec db Q := by
  intro r db' h
  obtain ⟨rfl, -⟩ := id h.findMany
  cases r with
  | error e => exact herror _
  | ok l => exact hok _ (mem_of_effective_call h)

/-- The check throws, or the actor can hand out all of `permissions`. -/
theorem RolesService.checkDelegation_always {actorUserId : ℤ} {permissions : List String}
    {Q : Except ServiceError Unit → Db → Prop} (herror : ∀ e, Q (.error e) db)
    (hok : (∀ p ∈ permissions, db.rows.grantable registry actorUserId p) → Q (.ok ()) db) :
    (checkDelegation registry actorUserId permissions).Always rt.Exec db Q := by
  refine Prog.Always.bind (getEffectivePermissions_always herror fun l hl => ?_)
  dsimp only
  by_cases hdenied : registry.denied l permissions = []
  · rw [if_neg (not_not.mpr hdenied)]
    refine hok fun p hp => ?_
    obtain ⟨q, hq, hactor⟩ := PermissionRegistry.canDelegate_iff.mp
      (PermissionRegistry.canDelegate_of_denied hdenied hp)
    exact ⟨q, hq, (hl q).mp hactor⟩
  · rw [if_pos hdenied]
    exact herror _

theorem RolesService.validatePermissionKeys_always {permissions : List String}
    {Q : Except ServiceError Unit → Db → Prop} (herror : ∀ e, Q (.error e) db)
    (hok : Q (.ok ()) db) :
    (validatePermissionKeys registry permissions).Always rt.Exec db Q := by
  unfold validatePermissionKeys
  dsimp only
  split
  · exact herror _
  · exact hok

/-- `findOne` throws, or gives the role with the id. -/
theorem RolesService.findOne_always {householdId id : ℤ}
    {Q : Except ServiceError Entity → Db → Prop} (herror : ∀ e, Q (.error e) db)
    (hok : ∀ role : Entity, role.row ∈ db.rows .customRole → role.row .id = .int id →
      role.row .householdId = .int householdId → Q (.ok role) db) :
    (findOne householdId id).Always rt.Exec db Q := by
  refine Prog.Always.bind (findFirst_always herror (herror _) fun hit row hcond hrow hhit => ?_)
  obtain ⟨hid, hhousehold⟩ := condition_ownRow hcond hhit rfl rfl
  exact hok _ hrow hid hhousehold

theorem Gain.refl (actor : Option ℤ) (db : Db) : Gain registry actor db db := .of_rows rfl

namespace RolesService

variable {householdId actorUserId id : ℤ}

theorem create_gains {name : String} {permissions : List String} :
    (create registry householdId actorUserId name permissions).Always rt.Exec db
      fun _ db' => Gain registry (some actorUserId) db db' := by
  refine Prog.Always.bind (validatePermissionKeys_always (fun _ => .refl _ _) ?_)
  refine Prog.Always.bind (checkDelegation_always (fun _ => .refl _ _) fun _ => ?_)
  refine create_always fun r db' h => ?_
  rcases create_call h with hrows | ⟨row, hcreated⟩
  · exact .of_rows hrows
  · exact fun u p hp => .inl (hcreated.effective hp)

/-- The write of an update, once what it adds to the role has been checked. -/
theorem update_write_gains {name : Option String} {permissions : Option (List String)}
    {existing : Entity} (hrole : existing.row ∈ db.rows .customRole)
    (hid : existing.row .id = .int id)
    (hchecked : ∀ l, permissions = some l → ∀ p ∈ l,
      p ∉ (existing.row .permissions).strings → db.rows.grantable registry actorUserId p) :
    (FinanceTracker.update .customRole [(.id, .int id)] (updateData name permissions)).Always
      rt.Exec db fun _ db' => Gain registry (some actorUserId) db db' := by
  refine update_always fun r db' h => ?_
  rcases update_call h with hrows | ⟨f, hchanged⟩
  · exact .of_rows hrows
  · intro u p hp
    rcases hchanged.effective hp with hp | ⟨l, hl, hmem, hback⟩
    · exact .inl hp
    · by_cases hold : p ∈ (existing.row .permissions).strings
      · exact .inl (hback existing.row hrole hid hold)
      · exact .inr ⟨actorUserId, rfl, hchecked l hl p hmem hold⟩

theorem update_gains {name : Option String} {permissions : Option (List String)} :
    (RolesService.update registry householdId id actorUserId name permissions).Always rt.Exec db
      fun _ db' => Gain registry (some actorUserId) db db' := by
  refine Prog.Always.bind (findOne_always (fun _ => .refl _ _) ?_)
  intro existing hrole hid _
  cases permissions with
  | none => exact update_write_gains hrole hid fun l hl => by cases hl
  | some l =>
      refine Prog.Always.bind (validatePermissionKeys_always (fun _ => .refl _ _) ?_)
      dsimp only
      by_cases hadded : (l.filter fun p => !(existing.row .permissions).strings.contains p) = []
      · -- nothing is added, so nothing has to be checked
        rw [if_neg (not_not.mpr hadded)]
        refine update_write_gains hrole hid fun l' hl' p hp hnew => ?_
        cases hl'
        have hmem := List.filter_eq_nil_iff.mp hadded p hp
        simp [hnew] at hmem
      · rw [if_pos hadded]
        refine Prog.Always.bind (checkDelegation_always (fun _ => .refl _ _) fun hall => ?_)
        refine update_write_gains hrole hid fun l' hl' p hp hnew => ?_
        cases hl'
        exact hall p (List.mem_filter.mpr ⟨hp, by simpa using hnew⟩)

theorem remove_gains : (RolesService.remove householdId id).Always rt.Exec db
    fun _ db' => Gain registry none db db' := by
  refine Prog.Always.bind (findOne_always (fun _ => .refl _ _) fun _ _ _ _ => ?_)
  refine Prog.Always.bind (deleteMany_always fun r db₁ h₁ => ?_)
  -- the first deletion stays done when the second one fails
  have hfirst : ∀ u p, db₁.rows.effective u p → db.rows.effective u p := by
    intro u p hp
    rcases h₁.deleteMany_filter (by decide) with hrows | ⟨hit, -, hrows⟩
    · rwa [hrows] at hp
    · exact Tables.effective_filter (hrows ▸ hp)
  cases r with
  | error e => exact fun u p hp => .inl (hfirst u p hp)
  | ok n =>
      refine delete_always fun r db₂ h₂ => fun u p hp => .inl (hfirst u p ?_)
      rcases h₂.delete_filter (by decide) with hrows | ⟨row, hit, -, -, -, hrows⟩
      · rwa [hrows] at hp
      · exact Tables.effective_filter (hrows ▸ hp)

theorem assignRole_gains {roleId userId : ℤ} :
    (RolesService.assignRole registry householdId roleId userId actorUserId).Always rt.Exec db
      fun _ db' => Gain registry (some actorUserId) db db' := by
  refine Prog.Always.bind (findOne_always (fun _ => .refl _ _) ?_)
  intro role hrole hid _
  refine Prog.Always.bind (findFirst_always (fun _ => .refl _ _) (.refl _ _) fun _ _ _ _ _ => ?_)
  refine Prog.Always.bind (checkDelegation_always (fun _ => .refl _ _) fun hall => ?_)
  refine create_always fun r db' h => ?_
  rcases assign_call h with hrows | ⟨row, hassigned⟩
  · exact .of_rows hrows
  · intro u p hp
    rcases hassigned.effective hp with hp | ⟨role', hrole', hid', hp⟩
    · exact .inl hp
    · -- the role that was assigned is the one that was checked
      have heq : role' = role.row := db.valid.eq_of_id hrole' hrole (hid'.trans hid.symm)
      exact .inr ⟨actorUserId, rfl, hall p (heq ▸ hp)⟩

theorem unassignRole_gains (householdId : ℤ) {roleId userId : ℤ} :
    (RolesService.unassignRole householdId roleId userId).Always rt.Exec db
      fun _ db' => Gain registry none db db' := by
  refine Prog.Always.bind (findFirst_always (fun _ => .refl _ _) (.refl _ _) fun _ _ _ _ _ => ?_)
  refine delete_always fun r db' h => ?_
  rcases h.delete_filter (by decide) with hrows | ⟨row, hit, -, -, -, hrows⟩
  · exact .of_rows hrows
  · exact .of_filter hrows

end RolesService

/-- **One request.** Whatever a user gains is grantable by what the actor has. -/
theorem RolesRequest.gains (q : RolesRequest) :
    (q.body registry).Always rt.Exec db fun _ db' => Gain registry q.actorUserId db db' := by
  cases q with
  | create householdId actorUserId name permissions => exact RolesService.create_gains
  | update householdId id actorUserId name permissions => exact RolesService.update_gains
  | remove householdId id => exact RolesService.remove_gains
  | assignRole householdId roleId userId actorUserId => exact RolesService.assignRole_gains
  | unassignRole householdId roleId userId => exact RolesService.unassignRole_gains householdId

end

/-! ## Whole runs -/

section

variable (rt : Runtime) (registry : PermissionRegistry) (S : Set ℤ)

/-- One request of an actor in `S`, run to its end: it may succeed or throw. -/
def RolesStep (db db' : Db) : Prop :=
  ∃ (q : RolesRequest) (o : Except ServiceError Row), (∀ a, q.actorUserId = some a → a ∈ S) ∧
    (q.body registry).Ends rt.Exec db o db'

/-- Any number of requests, one after the other. -/
def RolesRun : Db → Db → Prop := Relation.ReflTransGen (RolesStep rt registry S)

/-- What the users in `S` have together. -/
def heldBy (db : Db) : Set String := ⋃ s ∈ S, effectivePermissions rt db s

variable {rt registry S} {db₀ db db' : Db}

theorem RolesStep.gain (h : RolesStep rt registry S db db') (u : ℤ) {p : String}
    (hp : p ∈ effectivePermissions rt db' u) :
    p ∈ effectivePermissions rt db u ∨
      ∃ q, registry.grantableBy p = some q ∧ q ∈ heldBy rt S db := by
  obtain ⟨q, o, hactor, hends⟩ := h
  have hgain : Gain registry q.actorUserId db db' := Prog.always_iff.mp q.gains o db' hends
  rcases hgain u p (mem_effectivePermissions.mp hp) with hold | ⟨a, ha, g, hg, hheld⟩
  · exact .inl (mem_effectivePermissions.mpr hold)
  · refine .inr ⟨g, hg, ?_⟩
    exact Set.mem_biUnion (hactor a ha) (mem_effectivePermissions.mpr hheld)

/-- After any run of requests by actors in `S`, each user's permissions are among what the
user had at the start and the closure, under the delegation rules, of what the users in
`S` had at the start. -/
theorem RolesRun.bound (h : RolesRun rt registry S db₀ db) (u : ℤ) :
    effectivePermissions rt db u ⊆ effectivePermissions rt db₀ u ∪
      RuleClosure.closure registry.grantableBy (heldBy rt S db₀) := by
  induction h generalizing u with
  | refl => exact Set.subset_union_left
  | @tail db₁ db₂ _ hstep ih =>
      -- the actors themselves never leave the closure
      have hheld : heldBy rt S db₁ ⊆
          RuleClosure.closure registry.grantableBy (heldBy rt S db₀) := by
        refine Set.iUnion₂_subset fun s hs p hp => ?_
        rcases ih s hp with hp | hp
        · exact RuleClosure.subset_closure _ (Set.mem_biUnion hs hp)
        · exact hp
      intro p hp
      rcases hstep.gain u hp with hp | ⟨g, hg, hp⟩
      · exact ih u hp
      · exact .inr (RuleClosure.closed_closure _ p g hg (hheld hp))

/-- **No privilege escalation.** What a run of requests by actors in `S` gives anybody is in
the closure of what `S` held at the start; so the actors themselves stay in it. -/
theorem no_escalation (h : RolesRun rt registry S db₀ db) :
    (∀ u, effectivePermissions rt db u ⊆ effectivePermissions rt db₀ u ∪
      RuleClosure.closure registry.grantableBy (heldBy rt S db₀)) ∧
    ∀ s ∈ S, effectivePermissions rt db s ⊆
      RuleClosure.closure registry.grantableBy (heldBy rt S db₀) := by
  refine ⟨h.bound, fun s hs => (h.bound s).trans (Set.union_subset ?_ (le_refl _))⟩
  exact fun p hp => RuleClosure.subset_closure _ (Set.mem_biUnion hs hp)

/-- Alice makes a role that can delete accounts and gives it to Bob. -/
def deputized : Db :=
  after Runtime.closed ((RolesRequest.assignRole 1 5 2 1).body accountsRegistry)
    (after Runtime.closed
      ((RolesRequest.create 1 1 "Deputy" ["accounts:delete"]).body accountsRegistry) seeded)

/-- Alice makes a role with a key that she may hand out and gives it to Bob: he has the key
afterwards, and it is in the closure of what she held. -/
theorem no_escalation_example :
    "accounts:delete" ∈ effectivePermissions Runtime.closed deputized 2 ∧
      (∀ u, effectivePermissions Runtime.closed deputized u ⊆
        effectivePermissions Runtime.closed seeded u ∪
          RuleClosure.closure accountsRegistry.grantableBy (heldBy Runtime.closed {1} seeded)) ∧
      ∀ s ∈ ({1} : Set ℤ), effectivePermissions Runtime.closed deputized s ⊆
        RuleClosure.closure accountsRegistry.grantableBy (heldBy Runtime.closed {1} seeded) := by
  refine ⟨mem_effectivePermissions.mpr (by decide +kernel), no_escalation ?_⟩
  refine .tail (.single ⟨_, _, fun a ha => ?_, ends_after _ _ _⟩)
    ⟨_, _, fun a ha => ?_, ends_after _ _ _⟩
  · exact (Option.some.inj ha).symm
  · exact (Option.some.inj ha).symm

end

end EngineeringLab.FinanceTracker
