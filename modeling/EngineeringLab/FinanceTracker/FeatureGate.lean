/-
The gate of the budgets module: as long as the flag of household `H` is off, its budgets stay.

There are two ways into the module. The routes of its controller stand behind the
`FeatureFlagGuard`; the listener is called by the event bus, which asks for the flag itself,
of the household in the event. What is left are calls that touch the budgets of others or
other tables, and these leave the budgets of `H` alone: a typed body changes no id, so nothing
cascades, and a deletion that would reach a budget is restricted.

The listener of another household finds a budget in one call and adds to it in a later one,
by its id. In between that budget may go, but no budget of `H` can take over the id, because
the budgets of `H` do not change at all: the invariant carries its own induction.
-/
import EngineeringLab.FinanceTracker.Http
import EngineeringLab.FinanceTracker.Isolation

set_option autoImplicit false

open Concurrency

namespace EngineeringLab.FinanceTracker

/-! ## The flag and the budgets -/

/-- The module's flag of household `H` is absent or disabled. -/
def Tables.Disabled (t : Tables) (H : ℤ) (moduleName : String) : Prop :=
  ∀ flag ∈ t .featureFlag, flag .householdId = .int H → flag .moduleName = .string moduleName →
    flag .isEnabled ≠ .boolean true

instance (t : Tables) (H : ℤ) (moduleName : String) : Decidable (t.Disabled H moduleName) :=
  inferInstanceAs (Decidable (∀ flag ∈ t .featureFlag, flag .householdId = .int H →
    flag .moduleName = .string moduleName → flag .isEnabled ≠ .boolean true))

/-- Calls that are made while `H` has the budgets module disabled. -/
def whileDisabled (H : ℤ) :
    HttpRequest → History Db Call Answer → (c : Call) → Answer c → Db → Prop :=
  fun _ h _ _ _ => h.now.rows.Disabled H "budgets"

instance (H : ℤ) (q : HttpRequest) (h : History Db Call Answer) (c : Call) (r : Answer c) (e : Db) :
    Decidable (whileDisabled H q h c r e) :=
  inferInstanceAs (Decidable (h.now.rows.Disabled H "budgets"))

/-- The budgets of `H` are what they were: none has been created, changed or deleted. -/
def BudgetsKept (H : ℤ) (t t' : Tables) : Prop :=
  ∀ r, r .householdId = .int H → (r ∈ t .budget ↔ r ∈ t' .budget)

section

variable {H k : ℤ} {t t' t'' : Tables}

theorem BudgetsKept.of_table (h : t' .budget = t .budget) : BudgetsKept H t t' :=
  fun r _ => by rw [h]

theorem BudgetsKept.trans (h : BudgetsKept H t t') (h' : BudgetsKept H t' t'') :
    BudgetsKept H t t'' := fun r hr => (h r hr).trans (h' r hr)

/-- The statements of another household keep them. -/
theorem TenantWrites.budgetsKept {names : Value → Prop} (h : TenantWrites k names t t')
    (hk : k ≠ H) : BudgetsKept H t t' := by
  intro r hr
  have hframe := h.frame H hk.symm .budget r
  have howns : ∀ t : Tables, t.Owns H .budget r := fun _ => hr
  exact ⟨fun hmem => (hframe.mp ⟨hmem, howns t⟩).1, fun hmem => (hframe.mpr ⟨hmem, howns t'⟩).1⟩

end

/-! ## Calls that keep them -/

/-- The call keeps the budgets of `H`, in any state. -/
def Keeps (rt : Runtime) (H : ℤ) (c : Call) : Prop :=
  ∀ (db : Db) (r : Answer c) (db' : Db), rt.Exec db c r db' → BudgetsKept H db.rows db'.rows

section

variable {rt : Runtime} {H k : ℤ} {m : Model}

theorem keeps_findFirst {w : Where} {incl : Include} : Keeps rt H (.findFirst m w incl) := by
  intro db r db' h
  rw [h.findFirst.1]
  exact .of_table rfl

theorem keeps_findMany {w : Where} {incl : Include} : Keeps rt H (.findMany m w incl) := by
  intro db r db' h
  rw [h.findMany.1]
  exact .of_table rfl

theorem keeps_fetchTransactions {adapter accountId : String} {start stop : Option ℤ} :
    Keeps rt H (.fetchTransactions adapter accountId start stop) := by
  intro db r db' h
  cases h with
  | answered => exact .of_table rfl
  | unreachable h => cases h
  | fetched => exact .of_table rfl

theorem keeps_dateNow : Keeps rt H .dateNow := by
  intro db r db' h
  cases h with
  | answered => exact .of_table rfl
  | unreachable h => cases h
  | now => exact .of_table rfl

/-! Writes on other tables. -/

theorem keeps_create (hm : m ≠ .budget) {data : Js} (hdata : data.hasOnly m.scalarKeys = true) :
    Keeps rt H (.create m data) := by
  intro db r db' h
  rcases h.create hdata with ⟨e, -, hrows⟩ | ⟨new, row, -, -, hins⟩
  · exact .of_table (congrFun hrows _)
  · exact .of_table (by rw [hins.rows, Function.update_of_ne hm.symm])

theorem keeps_updateMany (hm : m ≠ .budget) {w : Where} {data : Js}
    (hid : data.get "id" = .undefined) : Keeps rt H (.updateMany m w data) := by
  intro db r db' h
  rcases h.updateMany with ⟨e, -, hrows⟩ | ⟨n, hit, -, -, -, hupd⟩
  · exact .of_table (congrFun hrows _)
  · obtain ⟨f, hrows, -⟩ := hupd.map hid
    exact .of_table (by rw [hrows, Function.update_of_ne hm.symm])

theorem keeps_update (hm : m ≠ .budget) {w : Where} {data : Js}
    (hdata : data.hasOnly m.scalarKeys = true) (hid : data.get "id" = .undefined) :
    Keeps rt H (.update m w data) := by
  intro db r db' h
  rcases h.update hdata with ⟨e, -, hrows⟩ | ⟨row, hit, -, -, -, hupd⟩
  · exact .of_table (congrFun hrows _)
  · obtain ⟨f, hrows, -⟩ := hupd.map hid
    exact .of_table (by rw [hrows, Function.update_of_ne hm.symm])

/-- Nothing that a deletion does elsewhere reaches a budget. -/
theorem Tables.deleted_budget (hm : m ≠ .budget) (t : Tables) (hit : Row → Bool) :
    t.deleted m hit .budget = t .budget := by
  by_cases hcategory : m = .category
  · subst hcategory
    rw [Tables.deleted_category, Function.update_of_ne (by decide),
      Function.update_of_ne (by decide)]
  · rw [Tables.deleted_of_ne hcategory, Function.update_of_ne hm.symm]

theorem keeps_delete (hm : m ≠ .budget) {w : Where} : Keeps rt H (.delete m w) := by
  intro db r db' h
  rcases h.delete with ⟨e, -, hrows⟩ | ⟨row, hit, -, -, -, -, hrows⟩
  · exact .of_table (congrFun hrows _)
  · exact .of_table (by rw [hrows, Tables.deleted_budget hm])

theorem keeps_deleteMany (hm : m ≠ .budget) {w : Where} : Keeps rt H (.deleteMany m w) := by
  intro db r db' h
  rcases h.deleteMany with ⟨e, -, hrows⟩ | ⟨n, hit, -, -, hrows⟩
  · exact .of_table (congrFun hrows _)
  · exact .of_table (by rw [hrows, Tables.deleted_budget hm])

/-! Writes on budgets of another household. -/

theorem keeps_createBudget (hk : k ≠ H) {data : Js}
    (hdata : data.hasOnly (Model.scalarKeys .budget) = true)
    (hhousehold : data.get "householdId" = Js.int k) : Keeps rt H (.create .budget data) := by
  intro db r db' h
  have hwrites : TenantWrites k (fun _ => True) db.rows db'.rows :=
    (h.create_tenant rfl hdata hhousehold (fun hm => by cases hm) fun _ _ => trivial).1
  exact hwrites.budgetsKept hk

theorem keeps_updateBudgets (hk : k ≠ H) {id : ℤ} {data : Js}
    (hdata : data.hasType BudgetsService.UpdateData = true) :
    Keeps rt H (.updateMany .budget (ownRow id k) data) := by
  intro db r db' h
  have habsent : ∀ key ∉ BudgetsService.UpdateData.map (·.name), data.get key = .undefined :=
    fun key hkey => Js.get_of_hasType hdata hkey
  have hwrites : TenantWrites k (fun _ => True) db.rows db'.rows :=
    h.updateMany_tenant rfl (habsent _ (by decide)) (habsent _ (by decide)) (habsent _ (by decide))
      (Js.number_of_hasType hdata (by decide)) fun _ _ => trivial
  exact hwrites.budgetsKept hk

theorem keeps_deleteBudgets (hk : k ≠ H) {id : ℤ} :
    Keeps rt H (.deleteMany .budget (ownRow id k)) := by
  intro db r db' h
  have hwrites : TenantWrites k (fun _ => True) db.rows db'.rows :=
    h.deleteMany_tenant rfl (by decide)
  exact hwrites.budgetsKept hk

/-- All calls of the service method keep the budgets of `H`. -/
abbrev AllKeep (rt : Runtime) (H : ℤ) {α : Type} (p : Service α) : Prop :=
  p.Obeys (Keeps rt H) fun _ => True

theorem discard_keeps {α : Type} {p : Service α} (hp : AllKeep rt H p) : AllKeep rt H (discard p) :=
  hp.bind fun _ _ => trivial

end

/-! ## Operations -/

section

variable {rt : Runtime} {app : App} {H k : ℤ} {m : Model}

/-- A create by typed `data` with the household, for a model that is not the budgets. -/
theorem create_keeps (hm : m ≠ .budget) {createData : List Property} {data : Js}
    (hdata : data.hasType createData = true)
    (hscalars : createData.map (·.name) ⊆ m.scalarKeys)
    (hhousehold : "householdId" ∈ m.scalarKeys) :
    AllKeep rt H (discard (FinanceTracker.create m (data.assign "householdId" (.int k)))) := by
  have honly : data.hasOnly m.scalarKeys = true := Js.hasOnly_mono (Js.hasType_only hdata) hscalars
  refine discard_keeps (call_obeys (keeps_create hm (Js.hasOnly_assign ?_ hhousehold)))
  rwa [Js.eq_obj_of_hasOnly honly]

/-- An update by typed `data`, which has no id. -/
theorem updateMany_keeps (hm : m ≠ .budget) {updateData : List Property} {w : Where} {data : Js}
    (hdata : data.hasType updateData = true) (hid : "id" ∉ updateData.map (·.name)) :
    AllKeep rt H (discard (updateMany m w data)) :=
  discard_keeps (call_obeys (keeps_updateMany hm (Js.get_of_hasType hdata hid)))

theorem findMany_keeps {w : Where} {incl : Include} :
    AllKeep rt H (discard (findMany m w incl)) := discard_keeps (call_obeys keeps_findMany)

theorem findFirst_keeps {w : Where} {incl : Include} :
    AllKeep rt H (discard (findFirst m w incl)) := discard_keeps (call_obeys keeps_findFirst)

theorem deleteMany_keeps (hm : m ≠ .budget) {w : Where} :
    AllKeep rt H (discard (deleteMany m w)) := discard_keeps (call_obeys (keeps_deleteMany hm))

theorem CrudOperation.accounts_keeps {op : CrudOperation}
    (hop : op.hasTypes AccountsService.CreateData AccountsService.UpdateData = true) :
    AllKeep rt H (op.accounts k) := by
  cases op with
  | create data => exact create_keeps (by decide) hop (by decide) (by decide)
  | findAll => exact findMany_keeps
  | findOne id => exact findFirst_keeps
  | update id data => exact updateMany_keeps (by decide) hop (by decide)
  | remove id => exact deleteMany_keeps (by decide)

theorem CrudOperation.categories_keeps {op : CrudOperation}
    (hop : op.hasTypes CategoriesService.CreateData CategoriesService.UpdateData = true) :
    AllKeep rt H (op.categories k) := by
  cases op with
  | create data => exact create_keeps (by decide) hop (by decide) (by decide)
  | findAll => exact findMany_keeps
  | findOne id => exact findFirst_keeps
  | update id data => exact updateMany_keeps (by decide) hop (by decide)
  | remove id => exact deleteMany_keeps (by decide)

theorem CrudOperation.users_keeps {op : CrudOperation}
    (hop : op.hasTypes UsersService.CreateData UsersService.UpdateData = true) :
    AllKeep rt H (op.users k) := by
  cases op with
  | create data => exact create_keeps (by decide) hop (by decide) (by decide)
  | findAll => exact findMany_keeps
  | findOne id => exact findFirst_keeps
  | update id data => exact updateMany_keeps (by decide) hop (by decide)
  | remove id => exact deleteMany_keeps (by decide)

/-- The budgets service writes for the household that it is called with. -/
theorem CrudOperation.budgets_keeps {op : CrudOperation}
    (hop : op.hasTypes BudgetsService.CreateData BudgetsService.UpdateData = true) (hk : k ≠ H) :
    AllKeep rt H (op.budgets k) := by
  cases op with
  | create data =>
      have honly : data.hasOnly (Model.scalarKeys .budget) = true :=
        Js.hasOnly_mono (Js.hasType_only hop) (by decide)
      refine discard_keeps (call_obeys
        (keeps_createBudget hk (Js.hasOnly_assign ?_ (by decide)) ?_))
      · rwa [Js.eq_obj_of_hasOnly honly]
      · exact Js.get_assign_self _ _ _
  | findAll => exact findMany_keeps
  | findOne id => exact findFirst_keeps
  | update id data => exact discard_keeps (call_obeys (keeps_updateBudgets hk hop))
  | remove id => exact discard_keeps (call_obeys (keeps_deleteBudgets hk))

/-- The transactions service but for `create`, which publishes. -/
theorem CrudOperation.transactions_keeps {op : CrudOperation}
    (hop : op.hasTypes TransactionsService.CreateData TransactionsService.UpdateData = true)
    (hcreate : ∀ data, op ≠ .create data) : AllKeep rt H (op.transactions rt k) := by
  cases op with
  | create data => exact absurd rfl (hcreate data)
  | findAll => exact findMany_keeps
  | findOne id => exact findFirst_keeps
  | update id data =>
      refine discard_keeps (call_obeys (keeps_updateMany (by decide) ?_))
      rw [Js.get_assign_of_ne _ _ (by decide), Js.eq_obj_of_hasOnly (Js.hasType_only hop)]
      exact Js.get_of_hasType hop (by decide)
  | remove id => exact deleteMany_keeps (by decide)

/-- A sync writes transactions. -/
theorem syncTransactions_keeps {adapters : List BankAdapter} {accountId : ℤ}
    {dateRange : Option (String × String)} :
    AllKeep rt H (syncTransactions rt adapters k accountId dateRange) :=
  syncTransactions_obeys keeps_findFirst keeps_dateNow (fun _ _ _ _ => keeps_fetchTransactions)
    fun _ _ => keeps_create (by decide) rfl

/-- Which operations keep the budgets of `H`, whatever the flags are. -/
theorem Operation.keeps {op : Operation} (hop : op.hasTypes = true)
    (hcreate : ∀ data, op ≠ .transactions (.create data))
    (hbudgets : ∀ crud, op = .budgets crud → k ≠ H) : AllKeep rt H (op.body rt app k) := by
  have hfirst : ∀ m w incl, Keeps rt H (.findFirst m w incl) := fun _ _ _ => keeps_findFirst
  have hmany : ∀ m w incl, Keeps rt H (.findMany m w incl) := fun _ _ _ => keeps_findMany
  cases op with
  | accounts op => exact op.accounts_keeps hop
  | transactions op =>
      exact op.transactions_keeps hop fun data heq => hcreate data (congrArg _ heq)
  | categories op => exact op.categories_keeps hop
  | budgets op => exact op.budgets_keeps hop (hbudgets op rfl)
  | users op => exact op.users_keeps hop
  | findHousehold => exact findFirst_keeps
  | updateHousehold data =>
      -- a household may be updated with a body, but only in its own columns
      refine discard_keeps (call_obeys (keeps_update (by decide) ?_ ?_))
      · exact Js.hasOnly_mono (Js.hasType_only hop) (by decide)
      · exact Js.get_of_hasType hop (by decide)
  | removeHousehold => exact discard_keeps (call_obeys (keeps_delete (by decide)))
  | findRoles => exact findMany_keeps
  | findRole id => exact discard_keeps (RolesService.findOne_obeys hfirst)
  | createRole actorUserId name permissions =>
      exact discard_keeps (RolesService.create_obeys hmany (keeps_create (by decide) rfl))
  | updateRole id actorUserId name permissions =>
      -- the `data` is built by the service, and names two columns
      refine discard_keeps (RolesService.update_obeys hfirst hmany (keeps_update (by decide) ?_ ?_))
      · exact RolesService.updateData_scalars name permissions
      · exact RolesService.updateData_get name permissions (by decide) (by decide)
  | removeRole id =>
      exact discard_keeps (RolesService.remove_obeys hfirst (keeps_deleteMany (by decide))
        (keeps_delete (by decide)))
  | assignRole roleId userId actorUserId =>
      exact discard_keeps (RolesService.assignRole_obeys hfirst hmany
        (keeps_create (by decide) rfl))
  | unassignRole roleId userId =>
      exact discard_keeps (RolesService.unassignRole_obeys hfirst
        (fun _ => keeps_delete (by decide)) k)
  | syncTransactions accountId dateRange => exact discard_keeps syncTransactions_keeps

end

/-! ## Rely and guarantee -/

/-- Everybody keeps the budgets of `H` as they were in `t₀`. -/
def gate (rt : Runtime) (app : App) (H : ℤ) (t₀ : Tables) : Contract (httpSystem rt app) where
  inv db := BudgetsKept H t₀ db.rows
  rely _ _ := True
  pre q _ := q.hasTypes = true
  ok := whileDisabled H
  guar _ _ _ _ e := BudgetsKept H t₀ e.rows
  post _ _ _ := True

section

variable {rt : Runtime} {app : App} {H k : ℤ} {t₀ : Tables} {q : HttpRequest}
  {h : History Db Call Answer}

theorem along_keeps {α : Type} {p : Service α} (hp : AllKeep rt H p) :
    (gate rt app H t₀).Along q p h fun _ _ => True := by
  induction p generalizing h with
  | ret a => trivial
  | throw x => trivial
  | call c k ih =>
      intro h' hx hi r e hexec _
      exact ⟨BudgetsKept.trans hi (hp.1 _ _ _ hexec), ih r (hp.2 r)⟩

/-- The flag service does not say that `H` has the budgets module. -/
theorem isModuleEnabled_along {moduleName : String} :
    (gate rt app H t₀).Along q (isModuleEnabled k moduleName) h fun o _ =>
      o = .ok true → ¬ (k = H ∧ moduleName = "budgets") := by
  refine Contract.Along.bind fun h' hx hi r e hexec hok => ?_
  obtain ⟨rfl, ⟨x, rfl⟩ | ⟨hit, hcond, ⟨rfl, -⟩ | ⟨flag, hflag, hhit, rfl⟩⟩⟩ := hexec.findFirst
  · refine ⟨hi, fun htrue => ?_⟩
    cases htrue
  · refine ⟨hi, fun htrue => ?_⟩
    cases htrue
  · refine ⟨hi, fun htrue => ?_⟩
    rintro ⟨rfl, rfl⟩
    -- the flag that was found would be the household's own, and it is off
    rw [condition_flag] at hcond
    split at hcond
    · rw [← Option.some.inj hcond, Bool.and_eq_true, decide_eq_true_eq, decide_eq_true_eq] at hhit
      have hon : decide (flag .isEnabled = .boolean true) = true := Except.ok.inj htrue
      exact hok flag hflag hhit.1 hhit.2 (of_decide_eq_true hon)
    · cases hcond

/-- An update by an id that no budget of `H` has. -/
theorem increment_keeps {db db' : Db} {z : ℤ} {amount : Js} {r : Except PrismaError Row}
    (hz : ∀ b ∈ db.rows .budget, b .householdId = .int H → b .id ≠ .int z)
    (hexec : rt.Exec db (.update .budget [(.id, .int z)]
      (.obj [("currentSpent", .obj [("increment", amount)])])) r db') :
    BudgetsKept H db.rows db'.rows := by
  -- the row with the id may be gone, or be of yet another household
  obtain ⟨k, hk, hown⟩ : ∃ k, k ≠ H ∧
      ∀ b ∈ db.rows .budget, b .id = .int z → b .householdId = .int k := by
    by_cases hrow : ∃ b ∈ db.rows .budget, b .id = .int z
    · obtain ⟨b, hb, hid⟩ := hrow
      obtain ⟨k, hk⟩ := db.valid.exists_int hb (c := .householdId) rfl
      refine ⟨k, ?_, fun b' hb' hid' => ?_⟩
      · rintro rfl
        exact hz b hb hk hid
      · rwa [db.valid.eq_of_id hb' hb (hid'.trans hid.symm)]
    · -- no row has the id: any other household will do
      push Not at hrow
      exact ⟨H + 1, by omega, fun b hb hid => absurd hid (hrow b hb)⟩
  have hwrites : TenantWrites k (fun _ => True) db.rows db'.rows := by
    refine hexec.update_tenant rfl rfl hown fun key hkey => ?_
    simp only [List.mem_cons, List.not_mem_nil, or_false] at hkey
    rcases hkey with rfl | rfl | rfl | rfl <;> rfl
  exact hwrites.budgetsKept hk

/-- The listener, for an event of another household. -/
theorem handle_along {event : DomainEvent} (hk : event.householdId ≠ H) :
    (gate rt app H t₀).Along q (TransactionCreatedListener.handle event) h fun _ _ => True := by
  unfold TransactionCreatedListener.handle
  split
  · refine Contract.Along.bind fun h' hx hi r e hexec _ => ?_
    obtain ⟨rfl, ⟨x, rfl⟩ | ⟨hit, hcond, ⟨rfl, -⟩ | ⟨budget, hbudget, hhit, rfl⟩⟩⟩ :=
      hexec.findFirst
    · exact ⟨hi, trivial⟩
    · exact ⟨hi, trivial⟩
    · refine ⟨hi, ?_⟩
      have hhousehold := Runtime.condition_int hcond hhit (c := .householdId)
        List.mem_cons_self rfl rfl
      obtain ⟨z, hz, -⟩ := h'.now.valid.id_int hbudget
      refine Contract.Along.bind fun h'' hx' hi' r' e' hexec' _ => ?_
      -- no budget of `H` has the id of the budget that was found, now or then
      have hother : ∀ b ∈ h''.now.rows .budget, b .householdId = .int H → b .id ≠ .int z := by
        intro b hb hH hid
        have hnow : b ∈ h'.now.rows .budget := (hi b hH).mp ((hi' b hH).mpr hb)
        have hsame : b = budget := h'.now.valid.eq_of_id hnow hbudget (hid.trans hz.symm)
        rw [hsame, hhousehold] at hH
        exact hk (Value.int.inj hH)
      rw [show (h'.now.rows.entity .budget [] budget).row = budget from rfl, hz] at hexec'
      refine ⟨BudgetsKept.trans hi' (increment_keeps hother hexec'), ?_⟩
      cases r' <;> trivial
  · trivial

/-- Publishing reaches the listener for households that have the module only. -/
theorem publish_along {event : DomainEvent} (hname : event.name = transactionCreated) :
    (gate rt app H t₀).Along q (budgetsBus.publish event) h fun _ _ => True := by
  have hdeliver : ∀ h, (gate rt app H t₀).Along q
      (EventBus.deliver event ⟨some "budgets", TransactionCreatedListener.handle⟩) h
        fun _ _ => True := by
    intro h
    unfold EventBus.deliver
    simp only [show ¬ "budgets" = "" by decide, if_false]
    refine Contract.Along.bind (isModuleEnabled_along.mono fun o h' hoff => ?_)
    rcases o with x | _ | _
    · trivial
    · trivial
    · -- the lookup said yes, so the event is of a household with the module
      have hk : event.householdId ≠ H := fun hk => hoff rfl ⟨hk, rfl⟩
      refine Contract.Along.tryCatch ((handle_along hk).mono fun o _ _ => ?_)
      cases o <;> trivial
  unfold EventBus.publish
  rw [subscribers_created hname]
  refine Contract.Along.bind (Contract.Along.bind ((hdeliver h).mono fun o _ _ => ?_))
  cases o <;> trivial

theorem discard_gate {α : Type} {p : Service α}
    (hp : (gate rt app H t₀).Along q p h fun _ _ => True) :
    (gate rt app H t₀).Along q (discard p) h fun _ _ => True := by
  refine Contract.Along.bind (hp.mono fun o _ _ => ?_)
  cases o <;> trivial

theorem createTransaction_along {data : Js} :
    (gate rt app H t₀).Along q (TransactionsService.create rt budgetsBus k data) h
      fun _ _ => True := by
  unfold TransactionsService.create
  refine Contract.Along.bind ((along_keeps (call_obeys keeps_findFirst)).mono fun o h' _ => ?_)
  rcases o with x | _ | account
  · trivial
  · trivial
  · refine Contract.Along.bind
      ((along_keeps (call_obeys (keeps_create (by decide) rfl))).mono fun o h'' _ => ?_)
    cases o with
    | error x => trivial
    | ok transaction =>
        refine Contract.Along.bind ((publish_along rfl).mono fun o _ _ => ?_)
        cases o <;> trivial

/-- The guard lets nobody of `H` through to the budgets. -/
theorem featureFlagGuard_along {handlerModule controllerModule : Option String} :
    (gate rt app H t₀).Along q
      (FeatureFlagGuard.canActivate handlerModule controllerModule k) h fun o _ =>
        o = .ok true → ¬ (k = H ∧ handlerModule.or controllerModule = some "budgets") := by
  unfold FeatureFlagGuard.canActivate
  cases handlerModule.or controllerModule with
  | none =>
      rintro - ⟨-, hmodule⟩
      cases hmodule
  | some moduleName =>
      dsimp only
      split
      · -- an empty name lets everybody through, but "budgets" is not empty
        rintro - ⟨-, hmodule⟩
        cases hmodule
        contradiction
      · refine Contract.Along.bind (isModuleEnabled_along.mono fun o h' hoff => ?_)
        rcases o with x | _ | _
        · intro htrue
          cases htrue
        · intro htrue
          cases htrue
        · rintro - ⟨hk, hmodule⟩
          exact hoff rfl ⟨hk, Option.some.inj hmodule⟩

theorem guarded_along {guard : Service Bool} {next : Service Unit}
    {admitted : Except ServiceError Bool → Prop}
    (hguard : (gate rt app H t₀).Along q guard h fun o _ => admitted o)
    (hnext : admitted (.ok true) → ∀ h', (gate rt app H t₀).Along q next h' fun _ _ => True) :
    (gate rt app H t₀).Along q (guarded guard next) h fun _ _ => True := by
  refine Contract.Along.bind (hguard.mono fun o h' hadmitted => ?_)
  rcases o with x | _ | _
  · trivial
  · trivial
  · exact hnext hadmitted h'

/-- Behind the guards only the controller of the budgets calls their service. -/
theorem Endpoint.operation_budgets {endpoint : Endpoint} {user : RequestUser} {op : CrudOperation}
    (h : endpoint.operation user = some (.budgets op)) :
    endpoint.handlerModule.or endpoint.controllerModule = some "budgets" := by
  cases endpoint with
  | crud route op => cases route <;> first | rfl | cases h
  | _ => cases h

theorem handle_gate {op : Operation} (hop : op.hasTypes = true)
    (hbudgets : ∀ crud, op = .budgets crud → k ≠ H) :
    (gate rt app H t₀).Along q (op.body rt app k) h fun _ _ => True := by
  by_cases hcreate : ∃ data, op = .transactions (.create data)
  · -- `create` publishes, and the listener writes budgets
    obtain ⟨data, rfl⟩ := hcreate
    exact discard_gate createTransaction_along
  · push Not at hcreate
    exact along_keeps (op.keeps hop hcreate hbudgets)

theorem canActivate_keeps {registry : PermissionRegistry} {handler : String}
    {required : Option (List String)} {userId : ℤ} :
    AllKeep rt H (PermissionsGuard.canActivate registry handler required userId) := by
  unfold PermissionsGuard.canActivate
  cases required with
  | none => trivial
  | some required =>
      dsimp only
      split
      · trivial
      · exact Prog.Obeys.bind
          (getEffectivePermissions_obeys fun _ _ _ => keeps_findMany) fun _ _ => trivial

theorem gate_holds : (gate rt app H t₀).Holds where
  drift db db' hinv hdrift := ⟨hinv.trans (.of_table (hdrift _ (by decide))), trivial⟩
  call _ _ _ _ _ _ _ hguar := ⟨hguar, trivial, fun _ hq => by cases hq⟩
  arrive _ _ hq _ := hq
  body q e _ hq := by
    -- the order of the source: the feature flag, the permissions, the handler
    refine guarded_along featureFlagGuard_along fun hadmitted _ => ?_
    refine guarded_along (along_keeps canActivate_keeps) fun _ _ => ?_
    unfold HttpRequest.handle
    split
    · have htypes : q.hasTypes = true := hq
      unfold HttpRequest.hasTypes at htypes
      -- the guard has admitted the request, so it is not about the budgets of `H`
      cases hop : q.endpoint.operation q.user with
      | none => trivial
      | some op =>
          rw [hop] at htypes
          refine handle_gate htypes fun crud heq hk => ?_
          rw [heq] at hop
          exact hadmitted rfl ⟨hk, Endpoint.operation_budgets hop⟩
    · trivial

/-- **The gate is complete.** In every state that a run of requests of any users reaches,
whatever happens to the flags as long as that of `H` is off, the budgets of `H` are what they
were at the start. -/
theorem gate_complete {db₀ : Db} {w : World Db HttpRequest Call Answer ServiceError Unit}
    (hw : (httpSystem rt app).Reach (whileDisabled H) db₀ w) :
    BudgetsKept H db₀.rows w.env.rows :=
  (@Contract.sound _ _ _ _ _ _ _ (gate rt app H db₀.rows) gate_holds _ (.of_table rfl) _ hw).1

end

/-! ### Both households at once, on the seed -/

/-- The requests arrive, and then their calls are made in this order. -/
def served (requests : List HttpRequest) (calls : List ℕ) : List (Move Db HttpRequest) :=
  requests.map .arrive ++ calls.map .call

theorem legal_served {rt : Runtime} {app : App} {requests : List HttpRequest}
    (h : ∀ q ∈ requests, q.hasTypes = true) (calls : List ℕ) :
    ∀ m ∈ served requests calls, (httpSystem rt app).Legal m := by
  intro m hm
  rcases List.mem_append.mp hm with hm | hm
  · obtain ⟨q, hq, rfl⟩ := List.mem_map.mp hm
    exact h q hq
  · obtain ⟨i, -, rfl⟩ := List.mem_map.mp hm
    trivial

/-- All permissions of the seed are registered. -/
def everyPermission : App :=
  ⟨{ PermissionRegistry.empty with allRegisteredKeys := Seed.allPermissions }, []⟩

/-- Household 2, whose module is off, has a category and a budget for it from before. -/
def Seed.budgetOfTwo : Db :=
  after Runtime.mayFirst (BudgetsService.create 2
      (.obj [("categoryId", .int 1), ("monthlyLimit", .int 100)]))
    (after Runtime.mayFirst (CategoriesService.create 2 (.obj [("name", .str "Food")])) seeded)

def lunchFrom (accountId : ℤ) : Endpoint :=
  .crud .transactions (.create (.obj [("amount", .int 12), ("description", .str "Lunch"),
    ("date", .str "2026-05-01"), ("accountId", .int accountId), ("categoryId", .int 1)]))

/-- Household 2 changes its budget, has lunch and deletes the category; household 1, whose
module is on, makes a budget and has lunch. -/
def gateRequests : List HttpRequest :=
  [⟨⟨3, 2⟩, .crud .budgets (.update 1 (.obj [("currentSpent", .int 5)])), true⟩,
    ⟨⟨3, 2⟩, lunchFrom 3, true⟩, ⟨⟨3, 2⟩, .crud .categories (.remove 1), true⟩,
    ⟨⟨1, 1⟩, .crud .budgets (.create (.obj [("categoryId", .int 1), ("monthlyLimit", .int 50)])),
      true⟩,
    ⟨⟨1, 1⟩, lunchFrom 1, true⟩]

/-- Six rounds, one call of each request a round. -/
def gateMoves : List (Move Db HttpRequest) :=
  served gateRequests (List.replicate 6 [0, 1, 2, 3, 4]).flatten

def gateWorld : World Db HttpRequest Call Answer ServiceError Unit :=
  (httpSystem Runtime.mayFirst everyPermission).playAll (fun e c => Runtime.mayFirst.answer c e)
    ⟨Seed.budgetOfTwo, []⟩ gateMoves

/-- Only the budget of household 1 has counted its lunch. -/
theorem gate_complete_example :
    (gateWorld.env.rows .transaction).length = 2 ∧
      (gateWorld.env.rows .budget).map (fun r => (r .householdId, r .currentSpent)) =
        [(.int 2, .decimal 0), (.int 1, .decimal 12)] ∧
      BudgetsKept 2 Seed.budgetOfTwo.rows gateWorld.env.rows :=
  ⟨by decide +kernel, by decide +kernel,
    gate_complete (System.reach_play (fun e c => Runtime.Exec.answered e c)
      (legal_served (by decide) _)
      (by decide +kernel))⟩

end EngineeringLab.FinanceTracker
