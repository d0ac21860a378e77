/-
Roles and users of one household, when requests of all households run concurrently.

`getEffectivePermissions` and the guard read a user's assignments without a household. That
is right as long as every assignment links a user and a role of the same household, and
only `assignRole` makes assignments: it looks both up in the household and inserts in a
later call. Meanwhile user and role may go, and then the foreign keys stop the insert;
what must not happen is that another row takes over the id. Ids come from sequences, so
it does not when the sequences are ahead of the ids in use (`own_permissions`). The seed
script sets the ids of its users itself and leaves the sequence behind, and there it does
(`id_taken_over`).
-/
import EngineeringLab.Concurrency.Interleave
import EngineeringLab.FinanceTracker.Isolation

set_option autoImplicit false

open Concurrency

namespace EngineeringLab.FinanceTracker

/-! ## The system -/

/-- The operations of the services of users, households and roles. -/
def Operation.managesMembers : Operation → Bool
  | users _ | findHousehold | updateHousehold _ | removeHousehold | findRoles | findRole _
  | createRole .. | updateRole .. | removeRole _ | assignRole .. | unassignRole .. => true
  | _ => false

/-- Operations of any households, each Prisma call one step. -/
def memberSystem (rt : Runtime) (app : App) :
    System Db (ℤ × Operation) Call Answer ServiceError Unit where
  body q := q.2.body rt app q.1
  admits q := q.2.hasTypes = true ∧ q.2.managesMembers = true
  exec := rt.Exec
  drift _ _ := False
  spawn _ := []

/-- Every assignment links a user and a role of the same household. -/
def Tables.SameHousehold (t : Tables) : Prop :=
  ∀ a ∈ t .userRoleAssignment, ∀ u ∈ t .user, ∀ role ∈ t .customRole,
    u .id = a .userId → role .id = a .roleId → u .householdId = role .householdId

instance (t : Tables) : Decidable t.SameHousehold :=
  inferInstanceAs (Decidable (∀ a ∈ t .userRoleAssignment, ∀ u ∈ t .user, ∀ role ∈ t .customRole,
    u .id = a .userId → role .id = a .roleId → u .householdId = role .householdId))

def Value.below : Value → ℤ → Bool
  | .int z, n => decide (z < n)
  | _, _ => true

/-- The sequence of the model is ahead of the ids in its table. -/
def Db.Ahead (db : Db) (m : Model) : Prop := ∀ r ∈ db.rows m, (r .id).below (db.seq m) = true

instance (db : Db) (m : Model) : Decidable (db.Ahead m) :=
  inferInstanceAs (Decidable (∀ r ∈ db.rows m, (r .id).below (db.seq m) = true))

theorem Db.Ahead.lt {db : Db} {m : Model} (h : db.Ahead m) {r : Row} (hr : r ∈ db.rows m) {z : ℤ}
    (hz : r .id = .int z) : z < db.seq m := by
  have hbelow := h r hr
  rw [hz] at hbelow
  exact of_decide_eq_true hbelow

/-! ## What holds throughout, and what the others keep -/

/-- The models that an assignment links. -/
def Model.linked (m : Model) : Prop := m = .user ∨ m = .customRole

structure Members (db : Db) : Prop where
  same : db.rows.SameHousehold
  ahead : ∀ m, m.linked → db.Ahead m

/-- Users and roles stay in their household; a new one has a new id. -/
structure MembersStay (db db' : Db) : Prop where
  seq : db.SeqLe db'
  rows : ∀ m, m.linked → ∀ r' ∈ db'.rows m,
    (∃ r ∈ db.rows m, r .id = r' .id ∧ r .householdId = r' .householdId) ∨
      ∃ z, r' .id = .int z ∧ db.seq m ≤ z ∧ z < db'.seq m

/-- The row with the id, if there is one, is of household `H`, and never another will be. -/
structure Pinned (m : Model) (id H : ℤ) (db : Db) : Prop where
  used : id < db.seq m
  own : ∀ r ∈ db.rows m, r .id = .int id → r .householdId = .int H

section

variable {db db' : Db} {m : Model}

theorem MembersStay.refl (db : Db) : MembersStay db db where
  seq := .refl db
  rows _ _ r hr := .inl ⟨r, hr, rfl, rfl⟩

/-- A row whose id was in use before is of the household it was. -/
theorem MembersStay.household (h : MembersStay db db') (hm : m.linked) (hahead : db.Ahead m)
    {r r' : Row} (hr : r ∈ db.rows m) (hr' : r' ∈ db'.rows m) (hid : r .id = r' .id) :
    r .householdId = r' .householdId := by
  rcases h.rows m hm r' hr' with ⟨s, hs, hsid, hown⟩ | ⟨z, hz, hseq, -⟩
  · rwa [db.valid.eq_of_id hr hs (hid.trans hsid.symm)]
  · -- a new id is not below the sequence, and `r` has one that is
    have hlt := hahead.lt hr (hid.trans hz)
    omega

theorem Pinned.of_row {id H : ℤ} (hahead : db.Ahead m) {r : Row} (hr : r ∈ db.rows m)
    (hid : r .id = .int id) (hown : r .householdId = .int H) : Pinned m id H db where
  used := hahead.lt hr hid
  own s hs hsid := by rwa [db.valid.eq_of_id hs hr (hsid.trans hid.symm)]

theorem Pinned.stay {id H : ℤ} (hm : m.linked) (h : MembersStay db db') (hp : Pinned m id H db) :
    Pinned m id H db' where
  used := lt_of_lt_of_le hp.used (h.seq m)
  own r' hr' hid := by
    rcases h.rows m hm r' hr' with ⟨r, hr, hrid, hown⟩ | ⟨z, hz, hseq, -⟩
    · rw [← hown]
      exact hp.own r hr (hrid.trans hid)
    · have heq : z = id := Value.int.inj (hz.symm.trans hid)
      have hlt := hp.used
      omega

/-- A step that keeps users and roles keeps the invariant, if each assignment was there or is
within one household. -/
theorem Members.step (h : Members db) (hstay : MembersStay db db')
    (hnew : ∀ a' ∈ db'.rows .userRoleAssignment,
      (∃ a ∈ db.rows .userRoleAssignment, a .userId = a' .userId ∧ a .roleId = a' .roleId) ∨
        ∀ u ∈ db'.rows .user, ∀ role ∈ db'.rows .customRole,
          u .id = a' .userId → role .id = a' .roleId → u .householdId = role .householdId) :
    Members db' where
  same a' ha' u' hu' role' hrole' huser hrole := by
    rcases hnew a' ha' with ⟨a, ha, hauser, harole⟩ | hlinked
    · -- the foreign keys give the user and the role that it linked before
      have hold : ∀ m, m.linked → ∀ fk ∈ Model.foreignKeys .userRoleAssignment, fk.target = m →
          ∀ r' ∈ db'.rows m, r' .id = a fk.col →
            ∃ r ∈ db.rows m, r .id = a fk.col ∧ r .householdId = r' .householdId := by
        rintro m hm fk hfk rfl r' hr' hid
        rcases db.valid.refs _ a ha fk hfk with hnull | ⟨r, hr, hrid⟩
        · exact absurd (hid.trans hnull) (db'.valid.id_ne_null hr')
        · exact ⟨r, hr, hrid, hstay.household hm (h.ahead _ hm) hr hr' (hrid.trans hid.symm)⟩
      obtain ⟨u, hu, huid, huown⟩ := hold .user (.inl rfl)
        ⟨.userId, .user, "user", "roleAssignments", .restrict⟩ (by simp [Model.foreignKeys]) rfl
        u' hu' (huser.trans hauser.symm)
      obtain ⟨role, hr, hrid, hrown⟩ := hold .customRole (.inr rfl)
        ⟨.roleId, .customRole, "role", "assignments", .restrict⟩ (by simp [Model.foreignKeys]) rfl
        role' hrole' (hrole.trans harole.symm)
      rw [← huown, ← hrown]
      exact h.same a ha u hu role hr huid hrid
    · -- a new assignment is within one household by assumption
      exact hlinked u' hu' role' hrole' huser hrole
  ahead m hm r' hr' := by
    rcases hstay.rows m hm r' hr' with ⟨r, hr, hid, -⟩ | ⟨z, hz, -, hlt⟩
    · -- an old id stays below the sequence, which only grows
      obtain ⟨z, hz, -⟩ := db.valid.id_int hr
      have hlt := (h.ahead m hm).lt hr hz
      have hle := hstay.seq m
      rw [← hid, hz]
      exact decide_eq_true (by omega)
    · rw [hz]
      exact decide_eq_true hlt

end

/-! ## Calls that make no assignment -/

/-- Users and roles stay, and no assignment is new. -/
def Calm (db db' : Db) : Prop :=
  MembersStay db db' ∧ ∀ a' ∈ db'.rows .userRoleAssignment,
    ∃ a ∈ db.rows .userRoleAssignment, a .userId = a' .userId ∧ a .roleId = a' .roleId

/-- A call that is calm in every state. -/
def Steady (rt : Runtime) (c : Call) : Prop :=
  ∀ (db : Db) (r : Answer c) (db' : Db), rt.Exec db c r db' → Calm db db'

section

variable {rt : Runtime} {db db' : Db} {m : Model}

theorem Calm.of_rows (hseq : db.SeqLe db') (h : db'.rows = db.rows) : Calm db db' := by
  refine ⟨⟨hseq, fun m _ r hr => ?_⟩, fun a ha => ?_⟩
  · rw [h] at hr
    exact .inl ⟨r, hr, rfl, rfl⟩
  · rw [h] at ha
    exact ⟨a, ha, rfl, rfl⟩

/-- A statement on one table, whose rows keep what matters here, or are new with a new id. -/
theorem Calm.of_table {rows : List Row} (hseq : db.SeqLe db')
    (h : db'.rows = Function.update db.rows m rows)
    (hrows : ∀ r' ∈ rows, (∃ r ∈ db.rows m, r .id = r' .id ∧ r .householdId = r' .householdId ∧
        r .userId = r' .userId ∧ r .roleId = r' .roleId) ∨
      m ≠ .userRoleAssignment ∧ ∃ z, r' .id = .int z ∧ db.seq m ≤ z ∧ z < db'.seq m) :
    Calm db db' := by
  refine ⟨⟨hseq, fun m' _ r' hr' => ?_⟩, fun a' ha' => ?_⟩
  · by_cases hm : m' = m
    · subst hm
      rw [h, Function.update_self] at hr'
      rcases hrows r' hr' with ⟨r, hr, hid, hown, -⟩ | ⟨-, hnew⟩
      · exact .inl ⟨r, hr, hid, hown⟩
      · exact .inr hnew
    · rw [h, Function.update_of_ne hm] at hr'
      exact .inl ⟨r', hr', rfl, rfl⟩
  · by_cases hm : Model.userRoleAssignment = m
    · subst hm
      rw [h, Function.update_self] at ha'
      rcases hrows a' ha' with ⟨a, ha, -, -, huser, hrole⟩ | ⟨hne, -⟩
      · exact ⟨a, ha, huser, hrole⟩
      · exact absurd rfl hne
    · rw [h, Function.update_of_ne hm] at ha'
      exact ⟨a', ha', rfl, rfl⟩

theorem Calm.of_filter {keep : Row → Bool} (hseq : db.SeqLe db')
    (h : db'.rows = Function.update db.rows m ((db.rows m).filter keep)) : Calm db db' :=
  .of_table hseq h fun r hr => .inl ⟨r, (List.mem_filter.mp hr).1, rfl, rfl, rfl, rfl⟩

/-- A new row, with the next id. -/
theorem Calm.of_append {row : Row} (hseq : db.SeqLe db')
    (h : db'.rows = Function.update db.rows m (db.rows m ++ [row])) (hm : m ≠ .userRoleAssignment)
    (hid : row .id = .int (db.seq m)) (hlt : db.seq m < db'.seq m) : Calm db db' := by
  refine .of_table hseq h fun r hr => ?_
  rcases List.mem_append.mp hr with hr | hr
  · exact .inl ⟨r, hr, rfl, rfl, rfl, rfl⟩
  · rw [List.mem_singleton.mp hr]
    exact .inr ⟨hm, _, hid, le_refl _, hlt⟩

/-- An update by `data` that leaves ids and households alone, of a model that is not the
assignments. -/
theorem Calm.of_updated {hit : Row → Bool} {data : Js} (hseq : db.SeqLe db')
    (h : Updated rt m hit data db db')
    (hkeys : ∀ key ∈ ["id", "householdId", "userId", "roleId"], data.get key = .undefined) :
    Calm db db' := by
  obtain ⟨f, hrows, hf⟩ := h.map (hkeys _ (by simp))
  refine .of_table hseq hrows fun r' hr' => ?_
  obtain ⟨r, hr, rfl⟩ := List.mem_map.mp hr'
  refine .inl ⟨r, hr, ?_⟩
  by_cases hhit : hit r = true
  · obtain ⟨ops, hops, happly⟩ := (hf r hr).2 hhit
    have hkeeps : ∀ c, c.key ∈ ["id", "householdId", "userId", "roleId"] → r c = f r c :=
      fun c hc => (Runtime.ops_of_undefined hops happly (hkeys _ hc)).symm
    exact ⟨hkeeps .id (by decide), hkeeps .householdId (by decide), hkeeps .userId (by decide),
      hkeeps .roleId (by decide)⟩
  · rw [(hf r hr).1 (by simpa using hhit)]
    exact ⟨rfl, rfl, rfl, rfl⟩

theorem steady_findFirst {w : Where} {incl : Include} : Steady rt (.findFirst m w incl) := by
  intro db r db' h
  rw [h.findFirst.1]
  exact .of_rows (.refl _) rfl

theorem steady_findMany {w : Where} {incl : Include} : Steady rt (.findMany m w incl) := by
  intro db r db' h
  rw [h.findMany.1]
  exact .of_rows (.refl _) rfl

theorem steady_delete (hm : m ≠ .category) {w : Where} : Steady rt (.delete m w) := by
  intro db r db' h
  rcases h.delete_filter hm with hrows | ⟨row, hit, -, -, -, hrows⟩
  · exact .of_rows h.seq hrows
  · exact .of_filter h.seq hrows

theorem steady_deleteMany (hm : m ≠ .category) {w : Where} : Steady rt (.deleteMany m w) := by
  intro db r db' h
  rcases h.deleteMany_filter hm with hrows | ⟨hit, -, hrows⟩
  · exact .of_rows h.seq hrows
  · exact .of_filter h.seq hrows

/-- A create without an id. -/
theorem steady_create (hm : m ≠ .userRoleAssignment) {data : Js}
    (hdata : data.hasOnly m.scalarKeys = true) (hid : data.get "id" = .undefined) :
    Steady rt (.create m data) := by
  intro db r db' h
  rcases h.create hdata with ⟨e, -, hrows⟩ | ⟨new, row, hnew, -, hins⟩
  · exact .of_rows h.seq hrows
  · have hnull := Runtime.newRow_id hnew hid
    exact .of_append h.seq hins.rows hm (hins.fresh hnull) (hins.seq hnull)

theorem steady_updateMany {w : Where} {data : Js}
    (hkeys : ∀ key ∈ ["id", "householdId", "userId", "roleId"], data.get key = .undefined) :
    Steady rt (.updateMany m w data) := by
  intro db r db' h
  rcases h.updateMany with ⟨e, -, hrows⟩ | ⟨n, hit, -, -, -, hupd⟩
  · exact .of_rows h.seq hrows
  · exact .of_updated h.seq hupd hkeys

theorem steady_update {w : Where} {data : Js} (hdata : data.hasOnly m.scalarKeys = true)
    (hkeys : ∀ key ∈ ["id", "householdId", "userId", "roleId"], data.get key = .undefined) :
    Steady rt (.update m w data) := by
  intro db r db' h
  rcases h.update hdata with ⟨e, -, hrows⟩ | ⟨row, hit, -, -, -, hupd⟩
  · exact .of_rows h.seq hrows
  · exact .of_updated h.seq hupd hkeys

end

/-! ## Operations of calm calls -/

section

variable {rt : Runtime} {app : App} {H : ℤ}

/-- All calls of the service method are steady. -/
abbrev AllSteady (rt : Runtime) {α : Type} (p : Service α) : Prop :=
  p.Obeys (Steady rt) fun _ => True

theorem discard_steady {α : Type} {p : Service α} (hp : AllSteady rt p) :
    AllSteady rt (discard p) := hp.bind fun _ _ => trivial

theorem RolesService.checkDelegation_steady {registry : PermissionRegistry} {actorUserId : ℤ}
    {permissions : List String} :
    AllSteady rt (checkDelegation registry actorUserId permissions) :=
  checkDelegation_obeys fun _ _ _ => steady_findMany

/-- The write of an update leaves a role its id and its household. -/
theorem RolesService.updateData_steady {name : Option String} {permissions : Option (List String)}
    {w : Where} : Steady rt (.update .customRole w (updateData name permissions)) := by
  refine steady_update (updateData_scalars name permissions) fun key hkey => ?_
  refine updateData_get name permissions ?_ ?_
  · rintro rfl
    revert hkey; decide
  · rintro rfl
    revert hkey; decide

theorem CrudOperation.users_steady {op : CrudOperation}
    (hop : op.hasTypes UsersService.CreateData UsersService.UpdateData = true) :
    AllSteady rt (op.users H) := by
  cases op with
  | create data =>
      have honly : data.hasOnly (Model.scalarKeys .user) = true :=
        Js.hasOnly_mono (Js.hasType_only hop) (by decide)
      have hobj := Js.eq_obj_of_hasOnly honly
      refine discard_steady (call_obeys (steady_create (by decide) ?_ ?_))
      · exact Js.hasOnly_assign (hobj.symm ▸ honly) (by decide)
      · rw [Js.get_assign_of_ne _ _ (by decide), hobj]
        exact Js.get_of_hasType hop (by decide)
  | findAll => exact discard_steady (call_obeys steady_findMany)
  | findOne id => exact discard_steady (call_obeys steady_findFirst)
  | update id data =>
      refine discard_steady (call_obeys (steady_updateMany fun key hkey => ?_))
      exact Js.get_of_hasType hop (by revert key; decide)
  | remove id => exact discard_steady (call_obeys (steady_deleteMany (by decide)))

/-- Only `assignRole` makes an assignment. -/
theorem Operation.steady {op : Operation} (hop : op.hasTypes = true)
    (hmanages : op.managesMembers = true)
    (hassign : ∀ roleId userId actorUserId, op ≠ .assignRole roleId userId actorUserId) :
    AllSteady rt (op.body rt app H) := by
  have hfirst : ∀ m w incl, Steady rt (.findFirst m w incl) := fun _ _ _ => steady_findFirst
  have hmany : ∀ m w incl, Steady rt (.findMany m w incl) := fun _ _ _ => steady_findMany
  have hdelete : ∀ m w, m ≠ .category → Steady rt (.delete m w) := fun _ _ hm => steady_delete hm
  cases op with
  | users op => exact op.users_steady hop
  | findHousehold => exact discard_steady (call_obeys (hfirst _ _ _))
  | updateHousehold data =>
      refine discard_steady (call_obeys (steady_update ?_ fun key hkey => ?_))
      · exact Js.hasOnly_mono (Js.hasType_only hop) (by decide)
      · exact Js.get_of_hasType hop (by revert key; decide)
  | removeHousehold => exact discard_steady (call_obeys (hdelete _ _ (by decide)))
  | findRoles => exact discard_steady (call_obeys (hmany _ _ _))
  | findRole id => exact discard_steady (RolesService.findOne_obeys hfirst)
  | createRole actorUserId name permissions =>
      exact discard_steady (RolesService.create_obeys hmany (steady_create (by decide) rfl rfl))
  | updateRole id actorUserId name permissions =>
      exact discard_steady (RolesService.update_obeys hfirst hmany RolesService.updateData_steady)
  | removeRole id =>
      exact discard_steady (RolesService.remove_obeys hfirst (steady_deleteMany (by decide))
        (hdelete _ _ (by decide)))
  -- the one operation that makes an assignment is left out here
  | assignRole roleId userId actorUserId => exact absurd rfl (hassign _ _ _)
  | unassignRole roleId userId =>
      exact discard_steady (RolesService.unassignRole_obeys hfirst
        (fun _ => hdelete _ _ (by decide)) H)
  | _ => cases hmanages

/-! ## Rely and guarantee -/

/-- Everybody keeps the invariant, and users and roles in their households. -/
def members (rt : Runtime) (app : App) : Contract (memberSystem rt app) where
  inv := Members
  rely := MembersStay
  pre q _ := q.2.hasTypes = true ∧ q.2.managesMembers = true
  ok := anyCall
  guar _ h _ _ e := Members e ∧ MembersStay h.now e
  post _ _ _ := True

variable {q : ℤ × Operation} {h : History Db Call Answer}

/-- Steady calls keep the guarantee, and what the others cannot break stays. -/
theorem along_steady {α : Type} {p : Service α} (hp : AllSteady rt p) {P : Db → Prop}
    (hP : ∀ {db db'}, MembersStay db db' → P db → P db') (hpre : P h.now) :
    (members rt app).Along q p h fun _ h' => P h'.now := by
  induction p generalizing h with
  | ret a => exact hpre
  | throw x => exact hpre
  | call c k ih =>
      intro h' hx hi r e hexec _
      obtain ⟨hstay, hpairs⟩ := hp.1 _ _ _ hexec
      have hnow : P h'.now := hx.stable hP hpre
      exact ⟨⟨Members.step hi hstay fun a' ha' => .inl (hpairs a' ha'), hstay⟩,
        ih r (hp.2 r) (hP hstay hnow)⟩

theorem discard_along {α : Type} {p : Service α}
    (hp : (members rt app).Along q p h fun _ _ => True) :
    (members rt app).Along q (discard p) h fun _ _ => True := by
  refine Contract.Along.bind (hp.mono fun o _ _ => ?_)
  cases o <;> trivial

/-- A read by id and household throws, finds nothing, or pins the row that it finds. -/
theorem findFirst_along {m : Model} (hm : m.linked) {id householdId : ℤ} {incl : Include}
    {P : Db → Prop} (hP : ∀ {db db'}, MembersStay db db' → P db → P db') (hpre : P h.now)
    {post : Except ServiceError (Option Entity) → History Db Call Answer → Prop}
    (herror : ∀ e h', post (.error e) h') (hnone : ∀ h', post (.ok none) h')
    (hsome : ∀ (row : Entity) (h' : History Db Call Answer), P h'.now →
      Pinned m id householdId h'.now → post (.ok (some row)) h') :
    (members rt app).Along q (findFirst m (ownRow id householdId) incl) h post := by
  intro h' hx hi r e hexec _
  have hnow : P h'.now := hx.stable hP hpre
  obtain ⟨rfl, ⟨x, rfl⟩ | ⟨hit, hcond, ⟨rfl, -⟩ | ⟨row, hrow, hhit, rfl⟩⟩⟩ := hexec.findFirst
  · exact ⟨⟨hi, .refl _⟩, herror _ _⟩
  · exact ⟨⟨hi, .refl _⟩, hnone _⟩
  · refine ⟨⟨hi, .refl _⟩, hsome _ _ hnow ?_⟩
    have hfields : m.field? .id = some (.required .id .int) ∧
        m.field? .householdId = some (.required .householdId .int) := by
      rcases hm with rfl | rfl <;> exact ⟨rfl, rfl⟩
    obtain ⟨hid, hown⟩ := condition_ownRow hcond hhit hfields.1 hfields.2
    exact Pinned.of_row (hi.ahead m hm) hrow hid hown

/-- The insert of an assignment whose user and role are pinned to one household. -/
theorem assign_along {userId roleId householdId : ℤ}
    (huser : Pinned .user userId householdId h.now)
    (hrole : Pinned .customRole roleId householdId h.now) :
    (members rt app).Along q
      (FinanceTracker.create .userRoleAssignment (RolesService.assignData userId roleId)) h
        fun _ _ => True := by
  intro h' hx hi r e hexec _
  -- what was read may be old by now, but it is pinned: the others keep to the rely
  have huser' : Pinned .user userId householdId h'.now :=
    hx.stable (Pinned.stay (.inl rfl)) huser
  have hrole' : Pinned .customRole roleId householdId h'.now :=
    hx.stable (Pinned.stay (.inr rfl)) hrole
  refine ⟨?_, ?_⟩
  · rcases RolesService.assign_call hexec with hrows | ⟨row, hassigned⟩
    · obtain ⟨hstay, hpairs⟩ := Calm.of_rows hexec.seq hrows
      exact ⟨Members.step hi hstay fun a ha => .inl (hpairs a ha), hstay⟩
    · -- the insert leaves the tables of users and roles alone
      have hother : ∀ m, m.linked → e.rows m = h'.now.rows m := by
        intro m hm
        rw [hassigned.rows, Function.update_of_ne (by rcases hm with rfl | rfl <;> decide)]
      have hstay : MembersStay h'.now e := by
        refine ⟨hexec.seq, fun m hm r hr => .inl ⟨r, ?_, rfl, rfl⟩⟩
        rwa [← hother m hm]
      refine ⟨Members.step hi hstay fun a ha => ?_, hstay⟩
      rw [hassigned.rows, Function.update_self, List.mem_append, List.mem_singleton] at ha
      rcases ha with ha | rfl
      · exact .inl ⟨a, ha, rfl, rfl⟩
      · -- the new assignment links what is pinned to one household
        refine .inr fun u hu role hr hid hrid => ?_
        rw [hother .user (.inl rfl)] at hu
        rw [hother .customRole (.inr rfl)] at hr
        rw [huser'.own u hu (hid.trans hassigned.user),
          hrole'.own role hr (hrid.trans hassigned.role)]
  · cases r <;> trivial

/-- What `assignRole` looks up is pinned until it inserts. -/
theorem RolesService.assignRole_along {registry : PermissionRegistry}
    {householdId roleId userId actorUserId : ℤ} :
    (members rt app).Along q (assignRole registry householdId roleId userId actorUserId) h
      fun _ _ => True := by
  refine Contract.Along.bind (Contract.Along.bind (findFirst_along (m := .customRole) (.inr rfl)
    (P := fun _ => True) (fun _ _ => trivial) trivial ?_ ?_ ?_))
  · exact fun _ _ => trivial
  · exact fun _ => trivial
  · intro role h₁ _ hrole
    refine Contract.Along.bind (findFirst_along (m := .user) (.inl rfl)
      (Pinned.stay (.inr rfl)) hrole ?_ ?_ ?_)
    · exact fun _ _ => trivial
    · exact fun _ => trivial
    · intro user h₂ hrole₂ huser₂
      -- the check of the delegation is steady, so both stay pinned through it
      refine Contract.Along.bind ((along_steady checkDelegation_steady
        (P := fun db =>
          Pinned .user userId householdId db ∧ Pinned .customRole roleId householdId db)
        (fun hstay hpinned => ⟨hpinned.1.stay (.inl rfl) hstay, hpinned.2.stay (.inr rfl) hstay⟩)
        ⟨huser₂, hrole₂⟩).mono fun o h₃ hpinned => ?_)
      cases o with
      | error x => trivial
      | ok _ => exact assign_along hpinned.1 hpinned.2

theorem members_holds : (members rt app).Holds where
  drift _ _ _ hd := hd.elim
  call _ _ _ _ _ _ _ hguar := ⟨hguar.1, hguar.2, fun _ hq => by cases hq⟩
  arrive _ _ hq _ := hq
  body q e _ hq := by
    obtain ⟨H, op⟩ := q
    have hsteady : AllSteady rt (op.body rt app H) →
        (members rt app).Along (H, op) (op.body rt app H) (.start e) fun _ _ => True :=
      fun hp => along_steady hp (P := fun _ => True) (fun _ _ => trivial) trivial
    by_cases hassign : ∃ roleId userId actorUserId, op = .assignRole roleId userId actorUserId
    · obtain ⟨roleId, userId, actorUserId, rfl⟩ := hassign
      exact discard_along RolesService.assignRole_along
    · push Not at hassign
      exact hsteady (op.steady hq.1 hq.2 hassign)

end

/-! ## What users have, and what the guard admits -/

/-- The permission is in a role of the user's own household that is assigned to the user. -/
def Tables.ownPermission (t : Tables) (userId : ℤ) (p : String) : Prop :=
  ∃ a ∈ t .userRoleAssignment, a .userId = .int userId ∧
    ∃ role ∈ t .customRole, role .id = a .roleId ∧ p ∈ (role .permissions).strings ∧
      ∃ u ∈ t .user, u .id = .int userId ∧ u .householdId = role .householdId

section

variable {rt : Runtime} {app : App} {db : Db} {userId : ℤ}

theorem Tables.SameHousehold.ownPermission (h : db.rows.SameHousehold) {p : String}
    (hp : db.rows.effective userId p) : db.rows.ownPermission userId p := by
  obtain ⟨a, ha, huser, role, hrole, hrid, hp⟩ := hp
  refine ⟨a, ha, huser, role, hrole, hrid, hp, ?_⟩
  have hfk : (⟨.userId, .user, "user", "roleAssignments", .restrict⟩ : ForeignKey) ∈
      Model.foreignKeys .userRoleAssignment := by simp [Model.foreignKeys]
  rcases db.valid.refs _ a ha _ hfk with hnull | ⟨u, hu, huid⟩
  · rw [huser] at hnull
    cases hnull
  · exact ⟨u, hu, huid.trans huser, h a ha u hu role hrole huid hrid⟩

/-- The guard admits a user who effectively has all that the route requires. -/
theorem PermissionsGuard.canActivate_always {registry : PermissionRegistry} {handler : String}
    {required : List String} :
    (canActivate registry handler (some required) userId).Always rt.Exec db fun o _ =>
      o = .ok true → ∀ p ∈ required, db.rows.effective userId p := by
  unfold canActivate
  dsimp only
  split
  · intro h
    cases h
  · refine Prog.Always.bind (getEffectivePermissions_always (fun _ h => ?_) fun l hl h p hp => ?_)
    · cases h
    · have hall : (required.all fun p => l.contains p) = true := Except.ok.inj h
      have hmem := List.all_eq_true.mp hall p hp
      exact (hl p).mp (by simpa using hmem)

/-- **Permissions stay within the household.** From any state with assignments within
households and sequences ahead, in every state that requests of any households reach:
assignments are within households, what a user effectively has comes from roles of the
user's own household, and the guard admits nobody on the strength of other roles. -/
theorem own_permissions {db₀ : Db} (hsame : db₀.rows.SameHousehold)
    (hahead : ∀ m, m.linked → db₀.Ahead m)
    {w : World Db (ℤ × Operation) Call Answer ServiceError Unit}
    (hw : (memberSystem rt app).Reach anyCall db₀ w) :
    w.env.rows.SameHousehold ∧
      (∀ userId, ∀ p ∈ effectivePermissions rt w.env userId, w.env.rows.ownPermission userId p) ∧
      ∀ handler required userId,
        (PermissionsGuard.canActivate app.registry handler (some required) userId).Always rt.Exec
          w.env fun o _ => o = .ok true → ∀ p ∈ required, w.env.rows.ownPermission userId p := by
  have hgood : Members w.env := (Contract.sound members_holds ⟨hsame, hahead⟩ hw).1
  refine ⟨hgood.same, fun userId p hp => ?_, fun handler required userId => ?_⟩
  · exact hgood.same.ownPermission (mem_effectivePermissions.mp hp)
  · refine PermissionsGuard.canActivate_always.mono fun o _ hadmits htrue p hp => ?_
    exact hgood.same.ownPermission (hadmits htrue p hp)

end

/-! ## Schedules on the seed -/

/-- Requests that arrive one after the other, each with the number of calls that it makes
before the next one arrives. -/
def inTurn (i : ℕ) : List ((ℤ × Operation) × ℕ) → List (Move Db (ℤ × Operation))
  | [] => []
  | (q, n) :: l => .arrive q :: List.replicate n (.call i) ++ inTurn (i + 1) l

def membersAfter (db : Db) (l : List ((ℤ × Operation) × ℕ)) (i : ℕ) :
    World Db (ℤ × Operation) Call Answer ServiceError Unit :=
  (memberSystem Runtime.closed seededApp).playAll (fun e c => Runtime.closed.answer c e) ⟨db, []⟩
    (inTurn 0 l ++ [.call i])

theorem legal_inTurn {rt : Runtime} {app : App} {l : List ((ℤ × Operation) × ℕ)}
    (h : ∀ q ∈ l, q.1.2.hasTypes = true ∧ q.1.2.managesMembers = true) (i : ℕ) :
    ∀ m ∈ inTurn i l, (memberSystem rt app).Legal m := by
  induction l generalizing i with
  | nil => intro m hm; cases hm
  | cons q l ih =>
      intro m hm
      rcases List.mem_append.mp hm with hm | hm
      · rcases List.mem_cons.mp hm with rfl | hm
        · exact h q List.mem_cons_self
        · rw [List.eq_of_mem_replicate hm]
          trivial
      · exact ih (fun q hq => h q (List.mem_cons_of_mem _ hq)) (i + 1) m hm

/-- The requests in turn, and then one more call of request `i`. -/
theorem reach_membersAfter {db : Db} {l : List ((ℤ × Operation) × ℕ)} {i : ℕ}
    (h : ∀ q ∈ l, q.1.2.hasTypes = true ∧ q.1.2.managesMembers = true) :
    (memberSystem Runtime.closed seededApp).Reach anyCall db (membersAfter db l i) := by
  refine System.reach_play (fun e c => Runtime.Exec.answered e c) (fun m hm => ?_)
    (System.meets_anyCall _ _)
  rcases List.mem_append.mp hm with hm | hm
  · exact legal_inTurn h 0 m hm
  · rw [List.mem_singleton.mp hm]
    trivial

/-- Household 1 is about to make Bob its deputy when it removes him; household 2 asks for new
users, and its second request gets an id. -/
def removesBob : List ((ℤ × Operation) × ℕ) :=
  [((1, .createRole 1 "Deputy" ["accounts:read"]), 2), ((1, .assignRole 5 2 1), 3),
    ((1, .unassignRole 2 2), 2), ((1, .users (.remove 2)), 1),
    ((2, .users (.create
      (.obj [("email", .str "dora@household-b.com"), ("name", .str "Dora")]))), 1),
    ((2, .users (.create
      (.obj [("email", .str "dora@household-b.com"), ("name", .str "Dora")]))), 1)]

/-- The seeded rows with sequences ahead of all ids but those of `m`. -/
def lagging (m : Model) : Db where
  rows := Seed.tables
  seq m' := if m' = m then 1 else 5
  valid := seeded.valid

/-- With the sequence ahead, Dora gets an id of her own, and Bob is no deputy. -/
theorem own_permissions_example :
    ((membersAfter (lagging .budget) removesBob 1).env.rows .user).length = 3 ∧
      (membersAfter (lagging .budget) removesBob 1).env.rows.SameHousehold ∧
      (∀ userId, ∀ p ∈ effectivePermissions Runtime.closed
          (membersAfter (lagging .budget) removesBob 1).env userId,
        (membersAfter (lagging .budget) removesBob 1).env.rows.ownPermission userId p) ∧
      ∀ handler required userId,
        (PermissionsGuard.canActivate accountsRegistry handler (some required) userId).Always
          Runtime.closed.Exec (membersAfter (lagging .budget) removesBob 1).env fun o _ =>
            o = .ok true → ∀ p ∈ required,
              (membersAfter (lagging .budget) removesBob 1).env.rows.ownPermission userId p := by
  refine ⟨by decide +kernel, ?_⟩
  refine @own_permissions Runtime.closed seededApp (lagging .budget) (by decide +kernel) ?_ _
    (reach_membersAfter (by decide))
  rintro m (rfl | rfl) <;> decide +kernel

/-- Household 1 is about to give Alice the role of members when it removes the role; household
2 asks for new roles, and its second request gets an id. -/
def removesMembers : List ((ℤ × Operation) × ℕ) :=
  [((1, .updateRole 2 1 none (some ["accounts:read"])), 2), ((1, .assignRole 2 1 1), 3),
    ((1, .removeRole 2), 3), ((2, .createRole 3 "Guest" []), 2), ((2, .createRole 3 "Guest" []), 2)]

/-- **An id is taken over**: of the user who is removed in between, on the seed itself, or of
the role, if the sequence of roles lags behind; then the insert links two households. -/
theorem id_taken_over :
    (∃ w, (memberSystem Runtime.closed seededApp).Reach anyCall seeded w ∧
      seeded.rows.SameHousehold ∧ seeded.Ahead .customRole ∧ ¬ w.env.rows.SameHousehold) ∧
    ∃ w, (memberSystem Runtime.closed seededApp).Reach anyCall (lagging .customRole) w ∧
      (lagging .customRole).rows.SameHousehold ∧ (lagging .customRole).Ahead .user ∧
        ¬ w.env.rows.SameHousehold := by
  refine ⟨⟨_, reach_membersAfter (l := removesBob) (i := 1) (by decide), ?_⟩,
    ⟨_, reach_membersAfter (l := removesMembers) (i := 1) (by decide), ?_⟩⟩
  · exact ⟨by decide +kernel, by decide +kernel, by decide +kernel⟩
  · exact ⟨by decide +kernel, by decide +kernel, by decide +kernel⟩

end EngineeringLab.FinanceTracker
