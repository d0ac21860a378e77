/-
What a request can see.

Every query that a request makes, whatever its body, asks for rows of its household or for the
roles of its user (`body_asks`); only `unassignRole` looks for an assignment by nothing but the ids
that it is given. What comes along with a row, though, is what the row refers to. So all that the
other requests read is of their household exactly as long as no transaction refers to an account or
a category of another household, and nobody has a role of another household (`reads_own_iff`).

A query shows the rows that its `where` selects and, for each, the rows that its includes
lead to, one relation after another. The first are decided by the request, the second by the
tables. `seen` is both together; `Owns` says whose a row is, for a role assignment by the
user that it belongs to.

The condition is therefore on the tables alone and says that no reference leads out of a
household (`Tables.Uncrossed`). It is decidable, so that a given database can be checked. If
it fails, there is a request that shows a row of another household, with nothing assumed
about how the reference came to be there.
-/
import EngineeringLab.FinanceTracker.AppModule
import EngineeringLab.FinanceTracker.Households
import EngineeringLab.FinanceTracker.References

set_option autoImplicit false

open Concurrency

namespace EngineeringLab.FinanceTracker

/-! ## Queries -/

/-- What the services have come along with a row. -/
def Model.shown : Model → Include
  | .household => [["members"], ["accounts"], ["categories"]]
  | .customRole => [["assignments"], ["assignments", "user"]]
  | .userRoleAssignment => [["role"]]
  | m => m.nestedReads.map fun key => [key]

/-- A query for the household, for its rows, or for the roles of the user. -/
def OwnQuery (user : RequestUser) (m : Model) (w : Where) (incl : Include) : Prop :=
  incl ⊆ m.shown ∧
    (m = .household ∧ (.id, .int user.householdId) ∈ w ∨
      (m.tenant = true ∨ m = .featureFlag) ∧ (.householdId, .int user.householdId) ∈ w ∨
      m = .userRoleAssignment ∧ (.userId, .int user.id) ∈ w)

/-- The queries among the calls are for what is the user's own. -/
def Asks (user : RequestUser) : Call → Prop
  | .findFirst m w incl => OwnQuery user m w incl
  | .findMany m w incl => OwnQuery user m w incl
  | _ => True

section

variable {user : RequestUser} {rt : Runtime} {app : App}

theorem ownQuery_tenant {m : Model} (hm : m.tenant = true) {w : Where} {incl : Include}
    (hincl : incl ⊆ m.shown) (hw : (.householdId, .int user.householdId) ∈ w) :
    OwnQuery user m w incl := ⟨hincl, .inr (.inl ⟨.inl hm, hw⟩)⟩

theorem ownQuery_ownRow {m : Model} (hm : m.tenant = true) {id : ℤ} {incl : Include}
    (hincl : incl ⊆ m.shown) : OwnQuery user m (ownRow id user.householdId) incl :=
  ownQuery_tenant hm hincl (List.mem_cons_of_mem _ List.mem_cons_self)

/-- All queries of the service method are for what is the user's own. -/
abbrev AllAsk (user : RequestUser) {α : Type} (p : Service α) : Prop :=
  p.Obeys (Asks user) fun _ => True

theorem discard_asks {α : Type} {p : Service α} (hp : AllAsk user p) : AllAsk user (discard p) :=
  hp.bind fun _ _ => trivial

theorem isModuleEnabled_asks {moduleName : String} :
    AllAsk user (isModuleEnabled user.householdId moduleName) := by
  refine Prog.Obeys.bind (call_obeys ⟨List.nil_subset _, .inr (.inl ⟨.inr rfl, ?_⟩)⟩)
    fun flag _ => ?_
  · exact List.mem_cons_self
  · cases flag <;> trivial

theorem getEffectivePermissions_asks : AllAsk user (getEffectivePermissions user.id) := by
  refine Prog.Obeys.bind (call_obeys ⟨?_, .inr (.inr ⟨rfl, List.mem_cons_self⟩)⟩) fun _ _ => trivial
  exact List.Subset.refl _

/-! ### Money -/

theorem listener_asks {event : DomainEvent} (hhousehold : event.householdId = user.householdId) :
    AllAsk user (TransactionCreatedListener.handle event) := by
  unfold TransactionCreatedListener.handle
  by_cases htruthy : event.categoryId.toJs.truthy = true
  · rw [if_pos htruthy, hhousehold]
    refine Prog.Obeys.bind (call_obeys (ownQuery_tenant rfl (List.nil_subset _)
      List.mem_cons_self)) fun budget _ => ?_
    cases budget with
    | none => trivial
    | some budget => exact Prog.Obeys.bind (call_obeys trivial) fun _ _ => trivial
  · rw [if_neg htruthy]
    trivial

theorem publish_asks {event : DomainEvent} (hname : event.name = transactionCreated)
    (hhousehold : event.householdId = user.householdId) :
    AllAsk user (budgetsBus.publish event) := by
  unfold EventBus.publish
  rw [subscribers_created hname]
  refine Prog.Obeys.bind (Prog.Obeys.each (Q := fun _ _ => True) fun subscriber hmem => ?_)
    fun _ _ => trivial
  rw [List.mem_singleton] at hmem
  rw [hmem]
  have hmodule : "budgets" ≠ "" := by decide
  have hdeliver : AllAsk user ((TransactionCreatedListener.handle event).tryCatch fun _ =>
      return ()) := (listener_asks hhousehold).tryCatch fun _ => trivial
  unfold EventBus.deliver
  dsimp only
  rw [if_neg hmodule, hhousehold]
  refine isModuleEnabled_asks.bind fun enabled _ => ?_
  cases enabled with
  | true => exact hdeliver
  | false => trivial

theorem createTransaction_asks {data : Js} :
    AllAsk user (TransactionsService.create rt budgetsBus user.householdId data) := by
  refine Prog.Obeys.bind (call_obeys (ownQuery_tenant rfl (List.Subset.refl _)
    (List.mem_cons_of_mem _ List.mem_cons_self))) fun account _ => ?_
  cases account with
  | none => trivial
  | some account =>
      refine Prog.Obeys.bind (call_obeys trivial) fun transaction _ => ?_
      exact (publish_asks rfl rfl).bind fun _ _ => trivial

/-- The five services of rows. -/
theorem CrudOperation.asks (op : CrudOperation) (route : Route) :
    AllAsk user ((route.operation op).body rt app user.householdId) := by
  cases op with
  | create data =>
      cases route with
      | transactions => exact discard_asks createTransaction_asks
      | _ => exact discard_asks (call_obeys trivial)
  | findAll =>
      cases route
      all_goals
        refine discard_asks (call_obeys (ownQuery_tenant rfl ?_ List.mem_cons_self))
        decide
  | findOne id =>
      cases route
      all_goals
        refine discard_asks (call_obeys (ownQuery_ownRow rfl ?_))
        decide
  | update id data =>
      cases route
      all_goals exact discard_asks (call_obeys trivial)
  | remove id =>
      cases route
      all_goals exact discard_asks (call_obeys trivial)

/-- After the account everything is writes, but for the clock and the bank. -/
theorem syncTransactions_asks {accountId : ℤ} {dateRange : Option (String × String)} :
    AllAsk user (syncTransactions rt app.adapters user.householdId accountId dateRange) :=
  syncTransactions_obeys (ownQuery_ownRow rfl (List.nil_subset _)) trivial
    (fun _ _ _ _ => trivial) fun _ _ => trivial

/-! ### Roles -/

namespace RolesService

variable {registry : PermissionRegistry}

theorem checkDelegation_asks {permissions : List String} :
    AllAsk user (checkDelegation registry user.id permissions) := by
  refine getEffectivePermissions_asks.bind fun actorPerms _ => ?_
  dsimp only
  split <;> trivial

theorem findOne_asks {id : ℤ} : AllAsk user (findOne user.householdId id) := by
  refine Prog.Obeys.bind (call_obeys (ownQuery_ownRow rfl (List.Subset.refl _))) fun role _ => ?_
  cases role <;> trivial

theorem create_asks {name : String} {permissions : List String} :
    AllAsk user (create registry user.householdId user.id name permissions) := by
  refine Prog.Obeys.bind validatePermissionKeys_obeys fun _ _ => ?_
  refine checkDelegation_asks.bind fun _ _ => ?_
  exact call_obeys trivial

theorem update_asks {id : ℤ} {name : Option String} {permissions : Option (List String)} :
    AllAsk user (update registry user.householdId id user.id name permissions) := by
  have hwrite : AllAsk user (FinanceTracker.update .customRole [(.id, .int id)]
      (updateData name permissions)) := call_obeys trivial
  refine findOne_asks.bind fun existing _ => ?_
  cases permissions with
  | none => exact hwrite
  | some permissions =>
      refine Prog.Obeys.bind validatePermissionKeys_obeys fun _ _ => ?_
      dsimp only
      split
      · exact checkDelegation_asks.bind fun _ _ => hwrite
      · exact hwrite

theorem remove_asks {id : ℤ} : AllAsk user (remove user.householdId id) := by
  refine findOne_asks.bind fun _ _ => ?_
  refine Prog.Obeys.bind (call_obeys trivial) fun _ _ => ?_
  exact call_obeys trivial

theorem assignRole_asks {roleId userId : ℤ} :
    AllAsk user (assignRole registry user.householdId roleId userId user.id) := by
  refine findOne_asks.bind fun role _ => ?_
  refine Prog.Obeys.bind (call_obeys (ownQuery_ownRow rfl (List.nil_subset _))) fun member _ => ?_
  cases member with
  | none => trivial
  | some member =>
      refine checkDelegation_asks.bind fun _ _ => ?_
      exact call_obeys trivial

end RolesService

/-! ### Requests -/

/-- `DELETE /roles/:roleId/users/:userId`. -/
def Endpoint.unassigns : Endpoint → Bool
  | .unassignRole .. => true
  | _ => false

theorem Endpoint.operation_asks {e : Endpoint} (he : e.unassigns = false) {op : Operation}
    (hop : e.operation user = some op) : AllAsk user (op.body rt app user.householdId) := by
  cases e with
  | getHello => cases hop
  | listAdapters => cases hop
  -- by its ids alone, which the hypothesis leaves out
  | unassignRole roleId userId => cases he
  | crud route op =>
      cases hop
      exact op.asks route
  | findHousehold =>
      cases hop
      exact discard_asks (call_obeys ⟨List.Subset.refl _, .inl ⟨rfl, List.mem_cons_self⟩⟩)
  | updateHousehold body =>
      cases hop
      exact discard_asks (call_obeys trivial)
  | removeHousehold =>
      cases hop
      exact discard_asks (call_obeys trivial)
  | createRole name permissions =>
      cases hop
      exact discard_asks RolesService.create_asks
  | findRoles =>
      cases hop
      exact discard_asks (call_obeys (ownQuery_tenant rfl (List.Subset.refl _) List.mem_cons_self))
  | findRole id =>
      cases hop
      exact discard_asks RolesService.findOne_asks
  | updateRole id name permissions =>
      cases hop
      exact discard_asks RolesService.update_asks
  | removeRole id =>
      cases hop
      exact discard_asks RolesService.remove_asks
  | assignRole roleId userId =>
      cases hop
      exact discard_asks RolesService.assignRole_asks
  | sync accountId start stop =>
      cases hop
      exact discard_asks syncTransactions_asks

theorem guarded_asks {guard : Service Bool} {next : Service Unit} (hguard : AllAsk user guard)
    (hnext : AllAsk user next) : AllAsk user (guarded guard next) := by
  refine hguard.bind fun activates _ => ?_
  cases activates with
  | true => exact hnext
  | false => trivial

/-- **What a request asks for** is its household's, or the roles of its user. -/
theorem body_asks {q : HttpRequest} (hq : q.endpoint.unassigns = false) :
    AllAsk q.user (q.body rt app) := by
  -- the guards ask, too: for the flag of the household, and for the roles of the user
  refine guarded_asks ?_ (guarded_asks ?_ ?_)
  · unfold FeatureFlagGuard.canActivate
    cases q.endpoint.handlerModule.or q.endpoint.controllerModule with
    | none => trivial
    | some moduleName =>
        dsimp only
        split
        · trivial
        · refine isModuleEnabled_asks.bind fun enabled _ => ?_
          cases enabled <;> trivial
  · unfold PermissionsGuard.canActivate
    cases q.endpoint.permissions with
    | none => trivial
    | some required =>
        dsimp only
        split
        · trivial
        · exact getEffectivePermissions_asks.bind fun _ _ => trivial
  · unfold HttpRequest.handle
    by_cases hparse : q.idsParse = true
    · rw [if_pos hparse]
      cases hop : q.endpoint.operation q.user with
      | none => trivial
      | some op => exact Endpoint.operation_asks hq hop
    · rw [if_neg hparse]
      trivial

end

/-! ## What comes along -/

/-- The references along which something comes with a transaction, or a transaction comes. -/
def shownReferences : List (Col × Model) := [(.accountId, .account), (.categoryId, .category)]

/-- A transaction is shown with what it refers to. -/
theorem shown_of_shownReference {ref : Col × Model} (href : ref ∈ shownReferences) :
    ref.2.tenant = true ∧ ∃ fk ∈ Model.foreignKeys .transaction, fk.col = ref.1 ∧
      fk.target = ref.2 ∧ [fk.field] ∈ Model.shown .transaction := by
  simp only [shownReferences, List.mem_cons, List.not_mem_nil, or_false] at href
  rcases href with rfl | rfl
  · exact ⟨rfl, ⟨.accountId, .account, "account", "transactions", .restrict⟩,
      .tail _ (.head _), rfl, rfl, .head _⟩
  · exact ⟨rfl, ⟨.categoryId, .category, "category", "transactions", .setNull⟩,
      .tail _ (.tail _ (.head _)), rfl, rfl, .tail _ (.head _)⟩

/-- Nothing that comes along leads into another household. -/
structure Tables.Uncrossed (t : Tables) : Prop where
  transactions : ∀ ref ∈ shownReferences, ∀ x ∈ t .transaction, ∀ p ∈ t ref.2, p .id = x ref.1 →
    p .householdId = x .householdId
  roles : t.SameHousehold

/-- If the user is there, it is a member of its household. -/
def RequestUser.Known (user : RequestUser) (t : Tables) : Prop :=
  ∀ u ∈ t .user, u .id = .int user.id → u .householdId = .int user.householdId

section

variable {t : Tables} {m : Model} {r : Row} {key : String} {p : Model × Row} {H : ℤ}

/-- Along a to-one relation. -/
theorem Tables.follow_parent (hchild : ∀ child ∈ m.children, child.2.back ≠ key)
    (hp : p ∈ t.follow m r key) :
    ∃ fk ∈ m.foreignKeys, fk.field = key ∧ p.1 = fk.target ∧ p.2 ∈ t p.1 ∧ p.2 .id = r fk.col := by
  rcases Tables.mem_follow.mp hp with h | ⟨child, hmem, hback, -⟩
  · exact h
  · exact absurd hback (hchild child hmem)

/-- Along a to-many relation. -/
theorem Tables.follow_children (hfk : ∀ fk ∈ m.foreignKeys, fk.field ≠ key)
    (hp : p ∈ t.follow m r key) :
    ∃ child ∈ m.children, child.2.back = key ∧ p.1 = child.1 ∧ p.2 ∈ t p.1 ∧
      p.2 child.2.col = r .id := by
  rcases Tables.mem_follow.mp hp with ⟨fk, hmem, hfield, -⟩ | h
  · exact absurd hfield (hfk fk hmem)
  · exact h

/-- The household's members, accounts and categories. -/
theorem household_shown (hown : r .id = .int H)
    (hkey : key ∈ ["members", "accounts", "categories"])
    (hp : p ∈ t.follow .household r key) : t.Owns H p.1 p.2 := by
  obtain ⟨child, hchild, hback, hmodel, -, hcol⟩ :=
    Tables.follow_children (fun fk hfk => by cases hfk) hp
  have hall : ∀ child ∈ Model.children .household,
      child.2.back ∈ ["members", "accounts", "categories"] →
        child.1.tenant = true ∧ child.2.col = .householdId := by decide
  obtain ⟨htenant, hhousehold⟩ := hall child hchild (by rwa [hback])
  rw [hmodel, Tables.owns_tenant htenant, ← hhousehold, hcol, hown]

/-- What comes with a transaction, and the transactions that come with a row. -/
theorem transaction_shown (hcross : t.Uncrossed) (hr : r ∈ t m) (hown : r .householdId = .int H)
    (hkey : key ∈ m.nestedReads) (hp : p ∈ t.follow m r key) : t.Owns H p.1 p.2 := by
  have hrefs : (∀ fk ∈ m.foreignKeys, fk.field = key → m = .transaction ∧
      (fk.col, fk.target) ∈ shownReferences) ∧
      ∀ child ∈ m.children, child.2.back = key → child.1 = .transaction ∧
        (child.2.col, m) ∈ shownReferences := by
    clear hp hr
    revert key
    cases m <;> decide
  obtain ⟨-, htargets, hchildren⟩ := Model.nestedReads_tenant hkey
  rcases Tables.mem_follow.mp hp with ⟨fk, hfk, hfield, hmodel, hmem, hid⟩ |
    ⟨child, hchild, hback, hmodel, hmem, hid⟩
  · obtain ⟨rfl, href⟩ := hrefs.1 fk hfk hfield
    rw [hmodel] at hmem
    rw [hmodel, Tables.owns_tenant (htargets fk hfk hfield),
      hcross.transactions _ href r hr p.2 hmem hid, hown]
  · obtain ⟨htransaction, href⟩ := hrefs.2 child hchild hback
    rw [hmodel, htransaction] at hmem
    rw [hmodel, Tables.owns_tenant (hchildren child hchild hback),
      ← hcross.transactions _ href p.2 hmem r hr hid.symm, hown]

/-- The assignments of a role. -/
theorem assignments_shown (hp : p ∈ t.follow .customRole r "assignments") :
    p.1 = .userRoleAssignment ∧ p.2 ∈ t .userRoleAssignment ∧ p.2 .roleId = r .id := by
  obtain ⟨child, hchild, -, hmodel, hmem, hcol⟩ := Tables.follow_children (by decide) hp
  have hassignment : child.1 = .userRoleAssignment ∧ child.2.col = .roleId := by
    clear hmodel hcol
    revert child
    decide
  rw [hassignment.1] at hmodel
  rw [hmodel] at hmem
  rw [hassignment.2] at hcol
  exact ⟨hmodel, hmem, hcol⟩

/-- The user of an assignment. -/
theorem user_shown {a : Row} (hp : p ∈ t.follow .userRoleAssignment a "user") :
    p.1 = .user ∧ p.2 ∈ t .user ∧ p.2 .id = a .userId := by
  obtain ⟨fk, hfk, hfield, hmodel, hmem, hid⟩ := Tables.follow_parent (by decide) hp
  have huser : fk.target = .user ∧ fk.col = .userId := by
    clear hmodel hid
    revert fk
    decide
  rw [huser.1] at hmodel
  rw [hmodel] at hmem
  rw [huser.2] at hid
  exact ⟨hmodel, hmem, hid⟩

/-- **What comes along with an own row** is the household's own. -/
theorem Tables.Uncrossed.shown (hcross : t.Uncrossed) (hvalid : Valid t) (hr : r ∈ t m)
    (hown : t.Owns H m r) {path : List String} (hpath : path ∈ m.shown)
    (hp : p ∈ t.followPath m r path) :
    t.Owns H p.1 p.2 := by
  cases m with
  | household =>
      simp only [Model.shown, List.mem_cons, List.not_mem_nil, or_false] at hpath
      rcases hpath with rfl | rfl | rfl
      all_goals exact household_shown hown (by decide) hp
  | customRole =>
      have hhousehold : r .householdId = .int H := hown
      simp only [Model.shown, List.mem_cons, List.not_mem_nil, or_false] at hpath
      rcases hpath with rfl | rfl
      · obtain ⟨hmodel, -, hcol⟩ := assignments_shown hp
        rw [hmodel]
        exact ⟨r, hr, hcol.symm, hhousehold⟩
      · -- the users that have the role
        obtain ⟨⟨m', a⟩, ha, hu⟩ := List.mem_flatMap.mp hp
        obtain ⟨rfl, hamem, hcol⟩ := assignments_shown ha
        obtain ⟨hmodel, hmem, hid⟩ := user_shown hu
        rw [hmodel, Tables.owns_tenant rfl,
          hcross.roles a hamem p.2 hmem r hr hid hcol.symm, hhousehold]
  | userRoleAssignment =>
      -- an assignment is the household's by its role, and there is one role of that id
      obtain ⟨role, hrole, hid, hhousehold⟩ := hown
      simp only [Model.shown, List.mem_cons, List.not_mem_nil, or_false] at hpath
      rw [hpath] at hp
      obtain ⟨hmodel, hmem, hrid⟩ := Tables.mem_entity_role.mp (List.mem_append_left [] hp)
      rw [hmodel, Tables.owns_tenant rfl, hvalid.eq_of_id hmem hrole (hrid.trans hid.symm),
        hhousehold]
  | transaction =>
      obtain ⟨key, hkey, rfl⟩ := List.mem_map.mp hpath
      exact transaction_shown hcross hr hown hkey hp
  | account =>
      obtain ⟨key, hkey, rfl⟩ := List.mem_map.mp hpath
      exact transaction_shown hcross hr hown hkey hp
  | category =>
      obtain ⟨key, hkey, rfl⟩ := List.mem_map.mp hpath
      exact transaction_shown hcross hr hown hkey hp
  | _ => cases hpath

end

/-! ## What is seen -/

/-- The rows of an answer. -/
def seen : (c : Call) → Answer c → List (Model × Row)
  | .findFirst m _ _, .ok (some e) => (m, e.row) :: e.included
  | .findMany m _ _, .ok entities => entities.flatMap fun e => (m, e.row) :: e.included
  | _, _ => []

/-- With some answers to its queries, the request is shown the row. -/
def HttpRequest.MaySee (rt : Runtime) (app : App) (db : Db) (q : HttpRequest) (p : Model × Row) :
    Prop :=
  ∃ c r db', (q.body rt app).MayCall c ∧ rt.Exec db c r db' ∧ p ∈ seen c r

section

variable {rt : Runtime} {app : App} {db db' : Db} {user : RequestUser}

/-- A row that is seen was selected, or comes along with one that was. -/
theorem selected_of_seen {c : Call} {r : Answer c} (h : rt.Exec db c r db') {p : Model × Row}
    (hp : p ∈ seen c r) : ∃ m w incl hit row, (c = .findFirst m w incl ∨ c = .findMany m w incl) ∧
      rt.condition m w = some hit ∧ row ∈ db.rows m ∧ hit row = true ∧
      p ∈ (m, row) :: (db.rows.entity m incl row).included := by
  cases c with
  | findFirst m w incl =>
      obtain ⟨-, ⟨e, rfl⟩ | ⟨hit, hcond, ⟨rfl, -⟩ | ⟨row, hrow, hhit, rfl⟩⟩⟩ := h.findFirst
      · cases hp
      · cases hp
      · exact ⟨m, w, incl, hit, row, .inl rfl, hcond, hrow, hhit, hp⟩
  | findMany m w incl =>
      obtain ⟨-, ⟨e, rfl⟩ | ⟨hit, hcond, rfl⟩⟩ := h.findMany
      · cases hp
      · obtain ⟨e, he, hp⟩ := List.mem_flatMap.mp hp
        obtain ⟨row, hrow, rfl⟩ := List.mem_map.mp he
        obtain ⟨hmem, hhit⟩ := List.mem_filter.mp hrow
        exact ⟨m, w, incl, hit, row, .inr rfl, hcond, hmem, hhit, hp⟩
  | _ => cases hp

/-- What a query for the user's own selects is the household's. -/
theorem OwnQuery.owns {m : Model} {w : Where} {incl : Include} (hq : OwnQuery user m w incl)
    (hknown : user.Known db.rows) (hcross : db.rows.Uncrossed) {hit : Row → Bool}
    (hcond : rt.condition m w = some hit) {row : Row} (hrow : row ∈ db.rows m)
    (hhit : hit row = true) : db.rows.Owns user.householdId m row := by
  rcases hq.2 with ⟨rfl, hw⟩ | ⟨hm | rfl, hw⟩ | ⟨rfl, hw⟩
  · exact Runtime.condition_int hcond hhit hw rfl rfl
  · obtain ⟨-, hfield⟩ := Model.tenant_fields hm
    rw [Tables.owns_tenant hm]
    exact Runtime.condition_int hcond hhit hw hfield rfl
  · exact Runtime.condition_int hcond hhit hw rfl rfl
  · -- the user's assignment, and so of its household's role
    have huser : row .userId = .int user.id := Runtime.condition_int hcond hhit hw rfl rfl
    obtain ⟨roleId, hroleId⟩ := db.valid.exists_int hrow (c := .roleId) rfl
    have hrefs := db.valid.refs _ row hrow
    simp only [Model.foreignKeys, List.mem_cons, List.not_mem_nil, or_false, forall_eq_or_imp,
      forall_eq, huser, hroleId, reduceCtorEq, false_or] at hrefs
    obtain ⟨⟨u, hu, huid⟩, role, hrole, hrid⟩ := hrefs
    refine ⟨role, hrole, hrid.trans hroleId.symm, ?_⟩
    rw [← hcross.roles row hrow u hu role hrole (huid.trans huser.symm) (hrid.trans hroleId.symm)]
    exact hknown u hu huid

/-- **Nothing foreign is seen** while nothing crosses. -/
theorem owns_of_maySee {q : HttpRequest} (hq : q.endpoint.unassigns = false)
    (hknown : q.user.Known db.rows) (hcross : db.rows.Uncrossed) {p : Model × Row}
    (hp : q.MaySee rt app db p) : db.rows.Owns q.user.householdId p.1 p.2 := by
  obtain ⟨c, r, db', hcall, hexec, hp⟩ := hp
  obtain ⟨m, w, incl, hit, row, hc, hcond, hrow, hhit, hp⟩ := selected_of_seen hexec hp
  have hquery : OwnQuery q.user m w incl := by
    have hasks := (body_asks hq).of_mayCall hcall
    rcases hc with rfl | rfl
    · exact hasks
    · exact hasks
  have hown := hquery.owns hknown hcross hcond hrow hhit
  rcases List.mem_cons.mp hp with rfl | hp
  · exact hown
  · obtain ⟨path, hpath, hp⟩ := List.mem_flatMap.mp hp
    exact hcross.shown db.valid hrow hown (hquery.1 hpath) hp

/-! ## What crosses is seen -/

/-- Behind the guards of a route without a module. -/
theorem mayCall_of_handle (hr : Started app.registry) {q : HttpRequest} {permission : String}
    (hmodule : q.endpoint.controllerModule = none)
    (hpermission : q.endpoint.permissions = some [permission]) {c : Call}
    (hc : (q.handle rt app).MayCall c) : (q.body rt app).MayCall c := by
  unfold HttpRequest.body FeatureFlagGuard.canActivate
  rw [hr.guard, hpermission, hmodule]
  -- the user has a role with the permission
  let role : Row := Function.update (fun _ => .null) .permissions (.stringList [permission])
  refine .inr ⟨.ok [⟨fun _ => .null, [(.customRole, role)]⟩], ?_⟩
  have hset : permissionSet [⟨fun _ => .null, [(.customRole, role)]⟩] = [permission] := by
    simp [permissionSet, role, Value.strings, List.eraseDups_cons]
  have hallowed : ([permission].all fun p =>
      (permissionSet [⟨fun _ => .null, [(.customRole, role)]⟩]).contains p) = true := by
    rw [hset]
    simp
  show Prog.MayCall c (if _ then _ else _)
  rw [if_pos hallowed]
  exact hc

/-- A handler that looks a row up shows it with what comes along. -/
theorem maySee_of_handle (hr : Started app.registry) {q : HttpRequest} {permission : String}
    (hmodule : q.endpoint.controllerModule = none)
    (hpermission : q.endpoint.permissions = some [permission]) {m : Model} {w : Where}
    {incl : Include} {k : Answer (.findFirst m w incl) → Service Unit}
    (hhandle : q.handle rt app = .call (.findFirst m w incl) k) {hit : Row → Bool}
    (hcond : rt.condition m w = some hit) {row : Row} (hrow : row ∈ db.rows m)
    (hhit : hit row = true) {p : Model × Row}
    (hp : p ∈ (db.rows.entity m incl row).included) : q.MaySee rt app db p := by
  refine ⟨_, _, db, mayCall_of_handle hr hmodule hpermission ?_, .found db hcond hrow hhit,
    List.mem_cons_of_mem _ hp⟩
  rw [hhandle]
  exact .inl rfl

/-- Every row of a household is found by its ids. -/
theorem exists_ownRow (rt : Runtime) {m : Model} (hm : m.tenant = true) {row : Row}
    (hrow : row ∈ db.rows m) : ∃ id householdId hit, row .householdId = .int householdId ∧
      rt.condition m (ownRow id householdId) = some hit ∧ hit row = true := by
  obtain ⟨hidField, hfield⟩ := Model.tenant_fields hm
  obtain ⟨id, hid⟩ := db.valid.exists_int hrow hidField
  obtain ⟨householdId, hhousehold⟩ := db.valid.exists_int hrow hfield
  have hfields : ∀ p ∈ [(Col.id, id), (.householdId, householdId)],
      ∃ f, m.field? p.1 = some f ∧ f.type = .int := by
    simp [hidField, hfield, Field.required]
  have hvalues : ∀ p ∈ [(Col.id, id), (.householdId, householdId)],
      row p.1 = .int p.2 ∧ int4 p.2 = true := by
    simp [hid, hhousehold, db.valid.int4 hrow hidField hid, db.valid.int4 hrow hfield hhousehold]
  obtain ⟨hit, hcond, hhit⟩ : ∃ hit, rt.condition m (ownRow id householdId) = some hit ∧
      hit row = true := Runtime.condition_ints hfields hvalues
  exact ⟨id, householdId, hit, hhousehold, hcond, hhit⟩

/-- From some number on no id is that of a user: they start behind the largest that the rows
have. -/
theorem exists_unknown (rows : List Row) : ∃ n : ℤ, ∀ z, n ≤ z → ∀ u ∈ rows, u .id ≠ .int z := by
  induction rows with
  | nil => exact ⟨0, fun z _ u hu => by cases hu⟩
  | cons u rows ih =>
      obtain ⟨n, hn⟩ := ih
      by_cases hint : ∃ z₀, u .id = .int z₀
      · obtain ⟨z₀, hz₀⟩ := hint
        refine ⟨max n (z₀ + 1), fun z hz u' hu' => ?_⟩
        rcases List.mem_cons.mp hu' with rfl | hu'
        · rw [hz₀, ne_eq, Value.int.injEq]
          omega
        · exact hn z (by omega) u' hu'
      · refine ⟨n, fun z hz u' hu' => ?_⟩
        rcases List.mem_cons.mp hu' with rfl | hu'
        · exact fun heq => hint ⟨z, heq⟩
        · exact hn z hz u' hu'

/-- All that the requests of members are shown is their household's. -/
def SeesOwnOnly (rt : Runtime) (app : App) (db : Db) : Prop :=
  ∀ q : HttpRequest, q.endpoint.unassigns = false → q.user.Known db.rows →
    ∀ p, q.MaySee rt app db p → db.rows.Owns q.user.householdId p.1 p.2

/-- Somebody of the household may ask. -/
theorem SeesOwnOnly.member (h : SeesOwnOnly rt app db) (householdId : ℤ) (endpoint : Endpoint)
    (hendpoint : endpoint.unassigns = false) :
    ∃ user : RequestUser, user.householdId = householdId ∧
      ∀ p, HttpRequest.MaySee rt app db ⟨user, endpoint, true⟩ p →
        db.rows.Owns householdId p.1 p.2 := by
  obtain ⟨n, hn⟩ := exists_unknown (db.rows .user)
  refine ⟨⟨n, householdId⟩, rfl, fun p hp => ?_⟩
  exact h ⟨⟨n, householdId⟩, endpoint, true⟩ hendpoint
    (fun u hu heq => absurd heq (hn n le_rfl u hu)) p hp

/-- **Where something crosses, something foreign is seen.** -/
theorem uncrossed_of_seesOwnOnly (hr : Started app.registry) (h : SeesOwnOnly rt app db) :
    db.rows.Uncrossed := by
  constructor
  · -- a transaction is shown with its account and its category
    intro ref href x hx p hp hid
    obtain ⟨id, householdId, hit, hhousehold, hcond, hhit⟩ :=
      exists_ownRow rt (show Model.tenant .transaction = true from rfl) hx
    obtain ⟨user, rfl, hown⟩ := h.member householdId (.crud .transactions (.findOne id)) rfl
    obtain ⟨htenant, fk, hfk, hcol, htarget, hshown⟩ := shown_of_shownReference href
    have hseen : HttpRequest.MaySee rt app db
        ⟨user, .crud .transactions (.findOne id), true⟩ (ref.2, p) := by
      refine maySee_of_handle hr rfl rfl rfl hcond hx hhit (List.mem_flatMap.mpr ⟨_, hshown, ?_⟩)
      refine Tables.mem_follow.mpr (.inl ⟨fk, hfk, rfl, htarget.symm, hp, ?_⟩)
      rw [hcol]
      exact hid
    rw [hhousehold]
    exact (Tables.owns_tenant htenant).mp (hown _ hseen)
  · -- a role is shown with the users that have it
    intro a ha u hu role hrole huid hrid
    obtain ⟨id, householdId, hit, hhousehold, hcond, hhit⟩ :=
      exists_ownRow rt (show Model.tenant .customRole = true from rfl) hrole
    obtain ⟨user, rfl, hown⟩ := h.member householdId (.findRole id) rfl
    have hseen : HttpRequest.MaySee rt app db ⟨user, .findRole id, true⟩ (.user, u) := by
      refine maySee_of_handle hr rfl rfl rfl hcond hrole hhit
        (List.mem_flatMap.mpr ⟨["assignments", "user"], by decide, ?_⟩)
      refine List.mem_flatMap.mpr ⟨(.userRoleAssignment, a), Tables.mem_follow.mpr (.inr ?_), ?_⟩
      · exact ⟨(.userRoleAssignment, ⟨.roleId, .customRole, "role", "assignments", .restrict⟩),
          by simp [Model.children, Model.all, Model.foreignKeys], rfl, rfl, ha, hrid.symm⟩
      · exact Tables.mem_follow.mpr (.inl ⟨⟨.userId, .user, "user", "roleAssignments", .restrict⟩,
          by simp [Model.foreignKeys], rfl, rfl, hu, huid⟩)
    rw [hhousehold]
    exact hown _ hseen

instance (t : Tables) : Decidable t.Uncrossed :=
  -- along the list: there are finitely many columns and models, too
  letI : Decidable (∀ ref ∈ shownReferences, ∀ x ∈ t .transaction, ∀ p ∈ t ref.2,
      p .id = x ref.1 → p .householdId = x .householdId) := List.decidableBAll _ _
  decidable_of_iff (_ ∧ t.SameHousehold)
    ⟨fun ⟨h, h'⟩ => ⟨h, h'⟩, fun h => ⟨h.transactions, h.roles⟩⟩

/-- **Read isolation**: requests are shown rows of their household only, exactly as long as no
transaction and no assignment leads into another one. -/
theorem reads_own_iff {ds : List PermissionDescriptor} (hperm : ds.Perm appModules)
    (hregisters : PermissionRegistry.Registers ds app.registry) :
    SeesOwnOnly rt app db ↔ db.rows.Uncrossed :=
  ⟨uncrossed_of_seesOwnOnly (started_of_registers hperm hregisters),
    fun hcross _ hq hknown _ hp => owns_of_maySee hq hknown hcross hp⟩

end

/-- Household 1 files its transaction under its own category, or under one of household 2. -/
theorem reads_own_iff_example :
    SeesOwnOnly Runtime.dated ⟨appRegistry, []⟩ (Seed.filed 1) ∧
      ¬ SeesOwnOnly Runtime.dated ⟨appRegistry, []⟩ (Seed.filed 2) := by
  have hiff : ∀ db : Db, SeesOwnOnly Runtime.dated ⟨appRegistry, []⟩ db ↔ db.rows.Uncrossed :=
    fun db => reads_own_iff (.refl _) (registers_of_perm (.refl _))
  rw [hiff, hiff]
  decide +kernel

end EngineeringLab.FinanceTracker
