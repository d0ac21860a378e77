/-
Delegation and request bodies: which bodies hand out no role.

`checkDelegation` sits in the roles service, but other services give the body to the same
client, and Prisma carries out what is nested in it. A `POST` of users, accounts,
categories or budgets and `PUT /households` reach the assignments and roles through
relations (`body_grants_role`), and a new id for a user takes the user's assignments
along. `nothing_granted` says what keeps a body from that, exactly so for bodies of
scalar fields.
-/
import EngineeringLab.FinanceTracker.Bodies
import EngineeringLab.FinanceTracker.Isolation

set_option autoImplicit false

open Concurrency

namespace EngineeringLab.FinanceTracker

/-- Nobody has a role that they did not have, and no role has other permissions; a role that
the request inserted has none. -/
structure NothingGranted (fresh : Model → Value → Prop) (t t' : Tables) : Prop where
  assignments : ∀ a' ∈ t' .userRoleAssignment, ∃ a ∈ t .userRoleAssignment,
    a .userId = a' .userId ∧ a .roleId = a' .roleId
  permissions : ∀ role' ∈ t' .customRole,
    (∃ role ∈ t .customRole, role .id = role' .id ∧ role .permissions = role' .permissions) ∨
      fresh .customRole (role' .id) ∧ (role' .permissions).strings = []

/-- Does `data` for a role list no permission? -/
def Js.listsNothing : Js → Bool
  | .undefined => true
  | .arr [] => true
  | .obj [("set", .arr [])] => true
  | _ => false

/-- The policy under which nobody gets a role: no assignment is made or changed, and roles
and users keep what assignments refer to. -/
def Policy.grants : Policy where
  makes
    | .userRoleAssignment, _ => false
    | .customRole, data => (data.get "permissions").listsNothing
    | _, _ => true
  locked
    | .userRoleAssignment, c => c = .userId || c = .roleId
    | .customRole, c => c = .id || c = .permissions
    | .user, c => c = .id
    | _, _ => false

/-! ## Requests -/

/-- `POST /<route>`, and the updates. -/
inductive WriteRequest where
  | post (route : Route) (body : Js)
  | put (q : UpdateRequest)

namespace WriteRequest

def operation : WriteRequest → Operation
  | post route body => route.operation (.create body)
  | put q => q.operation

/-- The call that the body goes to as a whole. `TransactionsService.create` names the fields
that it takes from the body. -/
def call (rt : Runtime) (H : ℤ) : WriteRequest → Option Call
  | post .transactions _ => none
  | post route body => some (.create route.model (body.assign "householdId" (.int H)))
  | put q => some (q.call rt H)

/-- The ids of the rows that the request inserts by what is in its body. -/
def inserts (rt : Runtime) (H : ℤ) (db : Db) (q : WriteRequest) : Model → Value → Prop :=
  match q.call rt H with
  | some c => Inserts (rt.statements c db)
  | none => fun _ _ => False

/-- Does the request carry out writes that are nested in its body? -/
def nested (H : ℤ) : WriteRequest → Bool
  | post .transactions _ => false
  | post route body => !(body.assign "householdId" (.int H)).hasOnly route.model.scalarKeys
  | put q => q.nested

/-- What keeps a body from granting anything. What is nested in it keeps to the policy, and an
update of scalar fields does not give another id to a user who has a role, or is rejected. -/
def GrantsNothing (rt : Runtime) (H : ℤ) (t : Tables) : WriteRequest → Prop
  | post .transactions _ => True
  | post route body => Policy.grants.allows (body.assign "householdId" (.int H)).depth false
    route.model [] (body.assign "householdId" (.int H)) = true
  | put q =>
    if q.nested then
      Policy.grants.allows (q.data rt).depth true q.model [] (q.data rt) = true
    else
      ∀ row row', Rewrites rt t q.model (q.selection H) (q.data rt) row row' → q.model = .user →
        Reassigns rt .user (q.data rt) row .id → ∀ a ∈ t .userRoleAssignment, a .userId ≠ row .id

end WriteRequest

/-! ## One statement -/

namespace NothingGranted

variable {fresh : Model → Value → Prop} {t t' t'' : Tables}

/-- Nothing happens to assignments and roles. -/
theorem of_same (ha : t' .userRoleAssignment = t .userRoleAssignment)
    (hr : t' .customRole = t .customRole) : NothingGranted fresh t t' where
  assignments a ha' := ⟨a, ha ▸ ha', rfl, rfl⟩
  permissions role hrole := .inl ⟨role, hr ▸ hrole, rfl, rfl⟩

theorem refl (fresh : Model → Value → Prop) (t : Tables) : NothingGranted fresh t t :=
  of_same rfl rfl

theorem trans (h : NothingGranted fresh t t') (h' : NothingGranted fresh t' t'') :
    NothingGranted fresh t t'' where
  assignments a'' ha'' := by
    obtain ⟨a', ha', huser', hrole'⟩ := h'.assignments a'' ha''
    obtain ⟨a, ha, huser, hrole⟩ := h.assignments a' ha'
    exact ⟨a, ha, huser.trans huser', hrole.trans hrole'⟩
  permissions role'' hrole'' := by
    rcases h'.permissions role'' hrole'' with ⟨role', hrole', hid', hperm'⟩ | hnew
    · rcases h.permissions role' hrole' with ⟨role, hrole, hid, hperm⟩ | hnew
      · exact .inl ⟨role, hrole, hid.trans hid', hperm.trans hperm'⟩
      · exact .inr (by rwa [hid', hperm'] at hnew)
    · exact .inr hnew

/-- An update that leaves roles and assignments what they are, and the id of each user who has
a role. -/
theorem of_updated {m : Model} {hit : Row → Bool} {f : Row → Row}
    (hassignment : m = .userRoleAssignment → ∀ a ∈ t m, hit a = true →
      f a .userId = a .userId ∧ f a .roleId = a .roleId)
    (hrole : m = .customRole → ∀ role ∈ t m, hit role = true →
      f role .id = role .id ∧ f role .permissions = role .permissions)
    (huser : m = .user → ∀ u ∈ t m, hit u = true → f u .id = u .id ∨
      ∀ a ∈ t .userRoleAssignment, a .userId ≠ u .id) :
    NothingGranted fresh t (t.updated m hit f) where
  assignments a' ha' := by
    rw [Tables.updated_eq] at ha'
    obtain ⟨a, ha, rfl⟩ := List.mem_map.mp ha'
    refine ⟨a, ha, (Tables.updatedRow_kept ha ?_ ?_).symm, (Tables.updatedRow_kept ha ?_ ?_).symm⟩
    · intro hm b hb hhit
      exact (hassignment hm.symm b hb hhit).1
    · -- the user may be the row whose id changes, but then nobody refers to it
      intro fk hfk hcol htarget p hp hhit hid
      have hm : m = .user := by
        rw [← htarget]
        clear htarget
        revert fk; decide
      rcases huser hm p hp hhit with hkept | hnone
      · exact hkept
      · exact absurd hid.symm (hnone a ha)
    · intro hm b hb hhit
      exact (hassignment hm.symm b hb hhit).2
    · -- the role may be updated, but it keeps its id
      intro fk hfk hcol htarget p hp hhit _
      have hm : m = .customRole := by
        rw [← htarget]
        clear htarget
        revert fk; decide
      exact (hrole hm p hp hhit).1
  permissions role' hrole' := by
    rw [Tables.updated_eq] at hrole'
    obtain ⟨role, hmem, rfl⟩ := List.mem_map.mp hrole'
    refine .inl ⟨role, hmem, (Tables.updatedRow_kept hmem ?_ ?_).symm,
      (Tables.updatedRow_kept hmem ?_ ?_).symm⟩
    · intro hm r hr hhit
      exact (hrole hm.symm r hr hhit).1
    · -- no foreign key is an id or a list of permissions, so no other table reaches these
      exact fun fk hfk hcol => absurd hcol (Model.id_not_reference _ fk hfk)
    · intro hm r hr hhit
      exact (hrole hm.symm r hr hhit).2
    · intro fk hfk hcol
      exact absurd hcol (by clear * - hfk; revert fk; decide)

/-- A deletion sets references to categories to null, and nothing else. -/
theorem of_deleted {m : Model} {hit : Row → Bool} : NothingGranted fresh t (t.deleted m hit) where
  assignments a' ha' := by
    obtain ⟨a, ha, hcols⟩ := Tables.mem_deleted_col ha'
    exact ⟨a, ha, (hcols _ (by decide)).symm, (hcols _ (by decide)).symm⟩
  permissions role' hrole' := by
    obtain ⟨role, hrole, hcols⟩ := Tables.mem_deleted_col hrole'
    exact .inl ⟨role, hrole, (hcols _ (by decide)).symm, (hcols _ (by decide)).symm⟩

/-- The permissions of a role that `data` lists nothing for. -/
theorem permissions_of_listsNothing {rt : Runtime} {links : List (Col × Value)} {data : Js}
    {row : Row} (hlinks : Model.Links .customRole links)
    (h : rt.newRow .customRole links data = some row)
    (hnothing : (data.get "permissions").listsNothing = true) :
    row .permissions = .stringList [] := by
  -- what links a nested row to its parent is a foreign key, and none is called `permissions`
  have hnone : links.lookup .permissions = none := by
    rw [List.lookup_eq_none_iff]
    intro link hlink
    obtain ⟨fk, hfk, hcol⟩ := hlinks link hlink
    rw [← hcol]
    clear hcol
    revert fk; decide
  have hvalue := Runtime.newRow_given h (c := .permissions) rfl hnone
  rw [show Col.key .permissions = "permissions" from rfl] at hvalue
  have hempty : rt.createValue (.withDefault .permissions .stringList (.stringList []))
      (data.get "permissions") = some (.stringList []) := by
    unfold Js.listsNothing at hnothing
    split at hnothing
    · rename_i hget
      rw [hget]
      rfl
    · rename_i hget
      rw [hget]
      rfl
    · rename_i hget
      rw [hget]
      rfl
    · cases hnothing
  exact Option.some.inj (hvalue.symm.trans hempty)

/-- **One statement** that keeps to the policy. -/
theorem of_statement {rt : Runtime} {ev : Prog.Event Db Sql SqlAnswer}
    (hpermits : Policy.grants.Permits rt ev.call) (hev : Effect ev)
    (hfresh : ∀ m row, insertedRow ev = some (m, row) → fresh m (row .id)) :
    NothingGranted fresh ev.before.rows ev.after.rows := by
  cases hev with
  | none h =>
      rw [h]
      exact refl _ _
  | @insert m new row hc hrow h =>
      rw [hc] at hpermits
      obtain ⟨links, data, hlinks, hnew, hmakes⟩ := hpermits
      have hassignment : m ≠ .userRoleAssignment := by
        rintro rfl
        cases hmakes
      rw [h.rows]
      -- No assignment is inserted, and a role that is inserted lists no permission.
      refine ⟨fun a ha => ?_, fun role hrole => ?_⟩
      · rw [Function.update_of_ne hassignment.symm] at ha
        exact ⟨a, ha, rfl, rfl⟩
      · by_cases hm : m = .customRole
        · subst hm
          rw [Function.update_self, List.mem_append, List.mem_singleton] at hrole
          rcases hrole with hrole | rfl
          · exact .inl ⟨role, hrole, rfl, rfl⟩
          · refine .inr ⟨hfresh _ _ hrow, ?_⟩
            rw [h.cols .permissions (by decide), permissions_of_listsNothing hlinks hnew hmakes]
            rfl
        · rw [Function.update_of_ne (Ne.symm hm)] at hrole
          exact .inl ⟨role, hrole, rfl, rfl⟩
  | @update m hit ops hc hops h =>
      rw [h]
      rw [hc] at hpermits
      -- The columns that grant something are locked: no update writes to them.
      have hkept : ∀ r ∈ ev.before.rows m, hit r = true → ∀ c, Policy.grants.locked m c = true →
          (applyOps ops r).getD r c = r c := by
        intro r hr hhit c hlocked
        obtain ⟨r', hr'⟩ := hops r hr hhit
        rw [hr', Option.getD_some]
        exact Policy.applyOps_locked hpermits hr' hlocked
      refine of_updated ?_ ?_ ?_
      · rintro rfl a ha hhit
        exact ⟨hkept a ha hhit _ rfl, hkept a ha hhit _ rfl⟩
      · rintro rfl role hrole hhit
        exact ⟨hkept role hrole hhit _ rfl, hkept role hrole hhit _ rfl⟩
      · rintro rfl u hu hhit
        exact .inl (hkept u hu hhit _ rfl)
  | delete hc h =>
      rw [h]
      exact of_deleted

end NothingGranted

/-! ## A transaction

`TransactionsService.create` writes a transaction by the fields that it names, and the
listener to its event the `currentSpent` of a budget. -/

section

variable {rt : Runtime} {app : App} {H : ℤ} {db db' : Db}

/-- Assignments and roles are what they were. -/
def SameRoles (db db' : Db) : Prop :=
  db'.rows .userRoleAssignment = db.rows .userRoleAssignment ∧
    db'.rows .customRole = db.rows .customRole

theorem SameRoles.refl (db : Db) : SameRoles db db := ⟨rfl, rfl⟩

theorem SameRoles.trans {db db' db'' : Db} (h : SameRoles db db') (h' : SameRoles db' db'') :
    SameRoles db db'' := ⟨h'.1.trans h.1, h'.2.trans h.2⟩

/-- A statement on another table. -/
theorem SameRoles.of_table {m : Model} {rows : List Row}
    (h : db'.rows = Function.update db.rows m rows)
    (hm : m ≠ .userRoleAssignment ∧ m ≠ .customRole) : SameRoles db db' := by
  unfold SameRoles
  rw [h, Function.update_of_ne hm.1.symm, Function.update_of_ne hm.2.symm]
  exact ⟨rfl, rfl⟩

theorem SameRoles.of_rows (h : db'.rows = db.rows) : SameRoles db db' := by
  unfold SameRoles
  rw [h]
  exact ⟨rfl, rfl⟩

theorem TransactionCreatedListener.handle_sameRoles {event : DomainEvent} :
    (handle event).Always rt.Exec db fun _ db' => SameRoles db db' := by
  unfold handle
  split
  · refine Prog.Always.bind (findFirst_always (fun _ => .refl _) (.refl _) fun _ _ _ _ _ => ?_)
    refine Prog.Always.bind_rel SameRoles SameRoles.trans (update_always fun r db' h => ?_)
      fun _ _ _ => .refl _
    rcases h.update rfl with ⟨e, -, hrows⟩ | ⟨row, hit, -, -, -, hupd⟩
    · exact .of_rows hrows
    · obtain ⟨f, hrows, -⟩ := hupd.map rfl
      exact .of_table hrows (by decide)
  · exact .refl _

theorem TransactionsService.create_sameRoles {data : Js} :
    (TransactionsService.create rt budgetsBus H data).Always rt.Exec db
      fun _ db' => SameRoles db db' := by
  refine Prog.Always.bind (findFirst_always (fun _ => .refl _) (.refl _) fun _ _ _ _ _ => ?_)
  refine Prog.Always.bind_rel SameRoles SameRoles.trans (create_always fun r db' h => ?_)
    fun row db' _ => ?_
  · rcases h.create rfl with ⟨e, -, hrows⟩ | ⟨new, row, -, -, hins⟩
    · exact .of_rows hrows
    · exact .of_table hins.rows (by decide)
  · refine Prog.Always.bind_rel SameRoles SameRoles.trans ?_ fun _ _ _ => .refl _
    exact EventBus.publish_rel SameRoles SameRoles.refl SameRoles.trans
      fun _ => TransactionCreatedListener.handle_sameRoles

/-! ## Whole requests -/

theorem Route.model_ne (route : Route) :
    route.model ≠ .userRoleAssignment ∧ route.model ≠ .customRole := by
  cases route <;> decide

namespace WriteRequest

variable {q : WriteRequest}

/-- What a call grants whose statements all keep to the policy. -/
theorem nothingGranted_of_permits {c : Call} (hc : c.hasData = true)
    (h : ∀ ev ∈ rt.statements c db, Policy.grants.Permits rt ev.call) {r : Answer c}
    (hexec : rt.Exec db c r db') :
    NothingGranted (Inserts (rt.statements c db)) db.rows db'.rows := by
  refine hexec.rel (NothingGranted.refl _) NothingGranted.trans hc fun ev hev => ?_
  refine NothingGranted.of_statement (h ev hev)
    (effect_of_exec (Runtime.of_mem_statements hev)) fun m row hrow => ?_
  exact ⟨ev, hev, row, hrow, rfl⟩

/-- An update of scalar fields is on no role and no assignment. -/
theorem put_flat {u : UpdateRequest} (hu : u.nested = false)
    (h : (put u).GrantsNothing rt H db.rows) {r : Answer (u.call rt H)}
    (hexec : rt.Exec db (u.call rt H) r db') (fresh : Model → Value → Prop) :
    NothingGranted fresh db.rows db'.rows := by
  have hmodel : u.model ≠ .userRoleAssignment ∧ u.model ≠ .customRole := by
    cases u with
    | item route id body => exact route.model_ne
    | household body => exact ⟨nofun, nofun⟩
  simp only [GrantsNothing, hu, Bool.false_eq_true, if_false] at h
  rcases UpdateRequest.exec_rewrites hu hexec with hrows | ⟨row, row', hrewrites, hrows⟩
  · rw [hrows]
    exact .refl _ _
  · rw [hrows]
    refine .of_updated (fun hm => absurd hm hmodel.1) (fun hm => absurd hm hmodel.2) ?_
    intro hm user huser hhit
    have heq : user = row := db.valid.eq_of_id huser hrewrites.mem (by simpa [hasId] using hhit)
    rw [heq]
    by_cases hid : row' .id = row .id
    · exact .inl hid
    · exact .inr (h row row' hrewrites hm (hm ▸ hrewrites.reassigns_iff.mpr hid))

theorem grantsNothing_sufficient (h : q.GrantsNothing rt H db.rows) :
    (q.operation.body rt app H).Always rt.Exec db fun _ db' =>
      NothingGranted (q.inserts rt H db) db.rows db'.rows := by
  cases q with
  | post route body =>
      have hcreate : route ≠ .transactions → ∀ r db', rt.Exec db
          (.create route.model (body.assign "householdId" (.int H))) r db' →
          NothingGranted (Inserts (rt.statements
            (.create route.model (body.assign "householdId" (.int H))) db)) db.rows db'.rows := by
        intro hroute r db' hexec
        refine nothingGranted_of_permits rfl (Policy.statements_create ?_) hexec
        cases route <;> first | exact h | exact absurd rfl hroute
      cases route with
      -- a transaction brings no role, and its event reaches a listener that counts in a budget
      | transactions =>
          exact discard_always (TransactionsService.create_sameRoles.mono
            fun _ _ hsame => .of_same hsame.1 hsame.2)
      | users => exact discard_call_always.mpr (hcreate (by decide))
      | accounts => exact discard_call_always.mpr (hcreate (by decide))
      | categories => exact discard_call_always.mpr (hcreate (by decide))
      | budgets => exact discard_call_always.mpr (hcreate (by decide))
  | put u =>
      refine UpdateRequest.always_iff.mpr fun r db' hexec => ?_
      by_cases hu : u.nested = true
      · cases u with
        | item route id body => cases hu
        | household body =>
            simp only [GrantsNothing, hu, if_true] at h
            exact nothingGranted_of_permits rfl (Policy.statements_update h) hexec
      · exact put_flat (by simpa using hu) h hexec _

theorem grantsNothing_necessary (hq : q.nested H = false)
    (h : (q.operation.body rt app H).Always rt.Exec db fun _ db' =>
      NothingGranted (q.inserts rt H db) db.rows db'.rows) : q.GrantsNothing rt H db.rows := by
  cases q with
  | post route body =>
      -- scalar fields make a row of the route's own model, which is no role and no assignment
      cases route with
      | transactions => trivial
      | users => exact Policy.allows_scalars (by simpa [nested] using hq) rfl
      | accounts => exact Policy.allows_scalars (by simpa [nested] using hq) rfl
      | categories => exact Policy.allows_scalars (by simpa [nested] using hq) rfl
      | budgets => exact Policy.allows_scalars (by simpa [nested] using hq) rfl
  | put u =>
      have hu : u.nested = false := hq
      simp only [GrantsNothing, hu, Bool.false_eq_true, if_false]
      intro row row' hrewrites hm hreassigns a ha huser
      have hgranted := UpdateRequest.always_iff.mp h _ _ (.answered db (u.call rt H))
      rw [UpdateRequest.answer_rewrites hrewrites] at hgranted
      have hid : row' .id ≠ row .id := hrewrites.reassigns_iff.mp (hm ▸ hreassigns)
      have hhit : hasId (row .id) row = true := by simp [hasId]
      -- the assignment follows the user to the new id
      have hfollows : db.rows.updatedRow u.model (hasId (row .id)) (fun _ => row')
          .userRoleAssignment a .userId = row' .id := by
        have hrenamed := Tables.renamed_of_hit (f := fun _ => row') db.valid hrewrites.mem hhit
        rw [← hrenamed]
        simp [Tables.updatedRow, Model.foreignKeys, hm, huser]
      obtain ⟨a₀, ha₀, huser₀, -⟩ := hgranted.assignments _ (Tables.mem_updatedRow ha)
      rw [hfollows] at huser₀
      -- but nobody had that id
      rcases db.valid.refs _ a₀ ha₀ ⟨.userId, .user, "user", "roleAssignments", .restrict⟩
        (by simp [Model.foreignKeys]) with hnull | ⟨p, hp, hpid⟩
      · have hid' := hrewrites.valid.id_ne_null (Tables.mem_updatedRow hrewrites.mem)
        rw [Tables.updatedRow_id] at hid'
        simp [hhit, ← huser₀, hnull] at hid'
      · exact hrewrites.fresh_id hid p (hm ▸ hp) (hpid.trans huser₀)

end WriteRequest

end

/-! ## On the seed -/

/-- A new user of household 1 brings the owner's role along. -/
def newOwner : WriteRequest :=
  .post .users (.obj [("id", .int 4), ("email", .str "mallory@household-a.com"),
    ("name", .str "Mallory"),
    ("roleAssignments", .obj [("create", .obj [("roleId", .int 1)])])])

/-- Household 1 makes a role without permissions while it changes its name. -/
def renameWithRole : WriteRequest :=
  .put (.household (.obj [("name", .str "Household One"),
    ("customRoles", .obj [("create", .obj [("name", .str "Guest")])])]))

end EngineeringLab.FinanceTracker
