/-
What a role update adds, when requests run concurrently.

`RolesService.update` decides which permissions are new against the role as its
`findOne` read it, checks only those, and then writes the whole list in a later call.
Between the two another request can take a permission out of the role: the write puts
it back, and nobody has checked it (`update_restores_unchecked`). As long as the listed
permissions that the role had when it was read are still there at the write, every
permission that the write adds was checked against what the actor held at the moment of
the check (`role_updates_checked`).

The rule compares what is in the database before and after the write, whatever the request
was called with: a permission that some role has afterwards and did not have just before
was, at some moment of that request, one that the actor could delegate. It speaks of every
role, since a write that went to another role than the one that was checked would break it
too.

The proof follows the three calls of `update` with the role as it was read in the history:
what the check let through, and what was in the role at the time of the read. The condition
says that the second part has not been taken away meanwhile.
-/
import EngineeringLab.Concurrency.Interleave
import EngineeringLab.FinanceTracker.Escalation

set_option autoImplicit false

open Concurrency

namespace EngineeringLab.FinanceTracker

/-- Requests of the roles service, each Prisma call one step. -/
def rolesSystem (rt : Runtime) (registry : PermissionRegistry) :
    System Db RolesRequest Call Answer ServiceError Row where
  body q := q.body registry
  admits _ := True
  exec := rt.Exec
  drift _ _ := False
  spawn _ := []

/-- Is the permission stored in the role `id`? -/
def Tables.stored (t : Tables) (id : ℤ) (p : String) : Prop :=
  ∃ role ∈ t .customRole, role .id = .int id ∧ p ∈ (role .permissions).strings

instance (t : Tables) (id : ℤ) (p : String) : Decidable (t.stored id p) :=
  inferInstanceAs (Decidable (∃ role ∈ t .customRole, role .id = .int id ∧
    p ∈ (role .permissions).strings))

/-- The database as it was each time the request read a role. -/
def roleReads : History Db Call Answer → List Db
  | .start _ => []
  | .other h _ => roleReads h
  | .own h c _ e => match c with
    | .findFirst .customRole _ _ => e :: roleReads h
    | _ => roleReads h

/-- Does `canDelegate` allow `p` for what the actor effectively has in `db`? -/
def DelegableAt (rt : Runtime) (registry : PermissionRegistry) (actor : ℤ) (p : String) (db : Db) :
    Prop :=
  ∃ actorPerms : List String, (∀ x, x ∈ actorPerms ↔ x ∈ effectivePermissions rt db actor) ∧
    registry.canDelegate actorPerms p = true

/-- A call of a role update: each permission that some role has after it and did not have just
before is one that the actor could delegate at some moment of the request. It is said of the
state that the call leaves, so of the list that its `data` really writes and of every role
that its `where` selects. -/
def AddsDelegable (rt : Runtime) (registry : PermissionRegistry) (q : RolesRequest)
    (h : History Db Call Answer) (c : Call) (_ : Answer c) (db' : Db) : Prop :=
  match q with
  | .update _ _ actorUserId _ _ => ∀ id p, db'.rows.stored id p → ¬ h.now.rows.stored id p →
    ∃ db ∈ h.moments, DelegableAt rt registry actorUserId p db
  | _ => True

/-- At a successful write of a permission list: what the request read in the role and lists
again is still in the role. -/
def StillStored (q : RolesRequest) (h : History Db Call Answer) (c : Call) (r : Answer c) (_ : Db) :
    Prop :=
  match c, r, q with
  | .update .customRole _ _, .ok _, .update _ id _ _ (some l) =>
    ∀ p ∈ l, ∀ db ∈ roleReads h, db.rows.stored id p → h.now.rows.stored id p
  | _, _, _ => True

instance (q : RolesRequest) (h : History Db Call Answer) (c : Call) (r : Answer c) (e : Db) :
    Decidable (StillStored q h c r e) := by
  unfold StillStored
  split <;> infer_instance

/-- Nothing is relied on: what the check needs is in the request's own history. -/
def roleUpdates (rt : Runtime) (registry : PermissionRegistry) :
    Contract (rolesSystem rt registry) where
  inv _ := True
  rely _ _ := True
  pre _ _ := True
  ok := StillStored
  guar := AddsDelegable rt registry
  post _ _ _ := True

section

variable {rt : Runtime} {registry : PermissionRegistry} {q : RolesRequest}
  {h : History Db Call Answer}

theorem DelegableAt.of_grantable {db : Db} {actor : ℤ} {p : String} {l : List String}
    (hl : ∀ x, x ∈ l ↔ db.rows.effective actor x) (h : registry.canDelegate l p = true) :
    DelegableAt rt registry actor p db :=
  ⟨l, fun x => (hl x).trans mem_effectivePermissions.symm, h⟩

theorem roleReads_extends {inv : Db → Prop} {rely : Db → Db → Prop} {h' : History Db Call Answer}
    (hx : h.Extends inv rely h') : roleReads h' = roleReads h := by
  induction hx with
  | refl => rfl
  | other _ _ _ ih => exact ih

/-! ## Rules for the parts of a request -/

/-- A call that leaves the rows as they are adds nothing to a role. -/
theorem addsDelegable_of_rows (c : Call) (r : Answer c) {db' : Db}
    (hrows : db'.rows = h.now.rows) : AddsDelegable rt registry q h c r db' := by
  cases q with
  | update householdId id actorUserId name permissions =>
      intro id p hstored hnew
      rw [hrows] at hstored
      exact absurd hstored hnew
  | _ => trivial

/-- The last call of a request that is no update. -/
theorem along_done {c : Call} {α : Type} (k : Answer c → Service α)
    (hq : ∀ h' r db', AddsDelegable rt registry q h' c r db')
    (hk : ∀ r h', (roleUpdates rt registry).Along q (k r) h' fun _ _ => True) :
    (roleUpdates rt registry).Along q (.call c k) h fun _ _ => True :=
  fun h' _ _ r e _ _ => ⟨hq h' r e, hk r _⟩

theorem along_awaited {α : Type} (r : Except PrismaError α) :
    (roleUpdates rt registry).Along q (awaited r) h fun _ _ => True := by
  cases r <;> trivial

/-- A query may throw, or give a row or none. -/
theorem query_along {m : Model} {w : Where} {incl : Include}
    {post : Except ServiceError (Option Entity) → History Db Call Answer → Prop}
    (herror : ∀ e h', post (.error e) h') (hok : ∀ row h', post (.ok row) h') :
    (roleUpdates rt registry).Along q (findFirst m w incl) h post := by
  intro h' _ _ r e hexec _
  refine ⟨addsDelegable_of_rows _ r (congrArg Db.rows hexec.findFirst.1), ?_⟩
  cases r with
  | error x => exact herror _ _
  | ok row => exact hok _ _

/-- `findOne` throws, or gives the role as the database had it. -/
theorem RolesService.findOne_along {householdId id : ℤ}
    {post : Except ServiceError Entity → History Db Call Answer → Prop}
    (herror : ∀ e h', post (.error e) h')
    (hok : ∀ (role : Entity) (h' : History Db Call Answer) (db : Db),
      roleReads h' = db :: roleReads h → role.row ∈ db.rows .customRole →
        role.row .id = .int id → post (.ok role) h') :
    (roleUpdates rt registry).Along q (findOne householdId id) h post := by
  refine Contract.Along.bind ?_
  intro h' hx _ r e hexec _
  refine ⟨addsDelegable_of_rows _ r (congrArg Db.rows hexec.findFirst.1), ?_⟩
  obtain ⟨rfl, ⟨x, rfl⟩ | ⟨hit, hcond, ⟨rfl, -⟩ | ⟨row, hrow, hhit, rfl⟩⟩⟩ := hexec.findFirst
  · exact herror _ _
  · exact herror _ _
  · refine hok _ _ h'.now ?_ hrow
      (Runtime.condition_int hcond hhit (c := .id) List.mem_cons_self rfl rfl)
    show h'.now :: roleReads h' = _
    rw [roleReads_extends hx]

/-- The check throws, or was passed at a moment of the request. -/
theorem RolesService.checkDelegation_along {actorUserId : ℤ} {permissions : List String}
    {post : Except ServiceError Unit → History Db Call Answer → Prop}
    (herror : ∀ e h', post (.error e) h')
    (hok : ∀ h', roleReads h' = roleReads h →
      (∀ p ∈ permissions, ∃ db ∈ h'.moments, DelegableAt rt registry actorUserId p db) →
        post (.ok ()) h') :
    (roleUpdates rt registry).Along q (checkDelegation registry actorUserId permissions) h
      post := by
  refine Contract.Along.bind (Contract.Along.bind ?_)
  intro h' hx _ r e hexec _
  refine ⟨addsDelegable_of_rows _ r (congrArg Db.rows hexec.findMany.1), ?_⟩
  obtain ⟨rfl, -⟩ := id hexec.findMany
  cases r with
  | error x => exact herror _ _
  | ok l =>
      show (roleUpdates rt registry).Along q (if registry.denied (permissionSet l) permissions ≠ []
        then _ else _) _ post
      by_cases hdenied : registry.denied (permissionSet l) permissions = []
      · rw [if_neg (not_not.mpr hdenied)]
        have hreads : roleReads h' = roleReads h := roleReads_extends hx
        refine hok _ hreads fun p hp => ⟨h'.now, List.mem_cons_self, ?_⟩
        exact .of_grantable (mem_of_effective_call hexec)
          (PermissionRegistry.canDelegate_of_denied hdenied hp)
      · rw [if_pos hdenied]
        exact herror _ _

theorem RolesService.validatePermissionKeys_along {permissions : List String}
    {post : Except ServiceError Unit → History Db Call Answer → Prop}
    (herror : ∀ e h', post (.error e) h') (hok : post (.ok ()) h) :
    (roleUpdates rt registry).Along q (validatePermissionKeys registry permissions) h post := by
  unfold validatePermissionKeys
  dsimp only
  split
  · exact herror _ _
  · exact hok

/-! ## Every request -/

/-- A role has a permission that it had not: it is the updated one, and the list has it. -/
theorem RolesService.Changed.stored {id id' : ℤ} {permissions : Option (List String)}
    {f : Row → Row} {db db' : Db} (hchanged : Changed id permissions f db db') {p : String}
    (hstored : db'.rows.stored id' p) (hnew : ¬ db.rows.stored id' p) :
    id' = id ∧ ∃ l, permissions = some l ∧ p ∈ l := by
  obtain ⟨role', hrole', hid, hp⟩ := hstored
  rw [hchanged.rows, Function.update_self] at hrole'
  obtain ⟨role, hrole, rfl⟩ := List.mem_map.mp hrole'
  rw [hchanged.keeps role hrole .id (by decide) (by decide)] at hid
  by_cases hthis : role .id = .int id
  · rw [hchanged.permissions role hrole hthis] at hp
    cases permissions with
    | none => exact absurd ⟨role, hrole, hid, hp⟩ hnew
    | some l => exact ⟨Value.int.inj (hid.symm.trans hthis), l, rfl, hp⟩
  · rw [hchanged.other role hrole hthis] at hp
    exact absurd ⟨role, hrole, hid, hp⟩ hnew

/-- The write of an update, when everything listed that was not read in the role has been
checked. -/
theorem update_write_along {householdId id actorUserId : ℤ} {name : Option String}
    {permissions : Option (List String)} {db : Db} (hreads : roleReads h = [db])
    (hchecked : ∀ l, permissions = some l → ∀ p ∈ l, ¬ db.rows.stored id p →
      ∃ db ∈ h.moments, DelegableAt rt registry actorUserId p db) :
    (roleUpdates rt registry).Along (.update householdId id actorUserId name permissions)
      (FinanceTracker.update .customRole [(.id, .int id)]
        (RolesService.updateData name permissions)) h fun _ _ => True := by
  intro h' hx _ r e hexec hstill
  refine ⟨?_, along_awaited r⟩
  intro id' p hstored hnew
  cases r with
  | error x =>
      rcases hexec.update_run with ⟨_, -, hrows⟩ | ⟨row, hit, -, hok, -⟩
      · exact absurd (hrows ▸ hstored) hnew
      · cases hok
  | ok row =>
      rcases RolesService.update_call hexec with hrows | ⟨f, hchanged⟩
      · exact absurd (hrows ▸ hstored) hnew
      · -- what the role has now and had not before was listed
        obtain ⟨rfl, l, rfl, hp⟩ := hchanged.stored hstored hnew
        -- had it been there at the read, it would be there still: this is what the condition is for
        have hread : ¬ db.rows.stored id' p := by
          intro hwas
          refine hnew (hstill p hp db ?_ hwas)
          rw [roleReads_extends hx, hreads]
          exact List.mem_cons_self
        obtain ⟨db', hmem, hdelegable⟩ := hchecked l rfl p hp hread
        exact ⟨db', hx.moments_subset hmem, hdelegable⟩

/-- An update writes what it has checked, or what was in the role when it read it. -/
theorem RolesService.update_along {householdId id actorUserId : ℤ} {name : Option String}
    {permissions : Option (List String)} (hfirst : roleReads h = []) :
    (roleUpdates rt registry).Along (.update householdId id actorUserId name permissions)
      (RolesService.update registry householdId id actorUserId name permissions) h
      fun _ _ => True := by
  refine Contract.Along.bind (findOne_along (fun _ _ => trivial) ?_)
  intro existing h' db' hreads hrow hid
  rw [hfirst] at hreads
  have hnotread : ∀ p, ¬ db'.rows.stored id p →
      (existing.row .permissions).strings.contains p = false := by
    intro p hp
    by_contra hmem
    exact hp ⟨existing.row, hrow, hid, by simpa using hmem⟩
  cases permissions with
  | none => exact update_write_along hreads fun l hl => by cases hl
  | some l =>
      refine Contract.Along.bind (validatePermissionKeys_along (fun _ _ => trivial) ?_)
      dsimp only
      -- Nothing added: what the role is left with, it had when it was read.
      by_cases hadded : (l.filter fun p => !(existing.row .permissions).strings.contains p) = []
      · rw [if_neg (not_not.mpr hadded)]
        refine update_write_along hreads fun l' hl' p hp hnew => ?_
        cases hl'
        have hmem := List.filter_eq_nil_iff.mp hadded p hp
        rw [hnotread p hnew] at hmem
        exact absurd rfl hmem
      · rw [if_pos hadded]
        refine Contract.Along.bind
          (checkDelegation_along (fun _ _ => trivial) fun h'' hreads'' hall => ?_)
        refine update_write_along (hreads''.trans hreads) fun l' hl' p hp hnew => ?_
        cases hl'
        refine hall p (List.mem_filter.mpr ⟨hp, ?_⟩)
        rw [hnotread p hnew]
        rfl

theorem RolesRequest.updates_along (q : RolesRequest) {db : Db} :
    (roleUpdates rt registry).Along q (q.body registry) (.start db) fun _ _ => True := by
  cases q with
  | create householdId actorUserId name permissions =>
      refine Contract.Along.bind (RolesService.validatePermissionKeys_along (fun _ _ => trivial) ?_)
      refine Contract.Along.bind
        (RolesService.checkDelegation_along (fun _ _ => trivial) fun _ _ _ => ?_)
      exact along_done _ (fun _ _ _ => trivial) fun r _ => along_awaited r
  -- the one operation of which something is asked; the others only have to be followed
  | update householdId id actorUserId name permissions => exact RolesService.update_along rfl
  | remove householdId id =>
      refine Contract.Along.bind (RolesService.findOne_along (fun _ _ => trivial) ?_)
      intro role h' db' _ _ _
      refine Contract.Along.bind ?_
      intro h'' _ _ r e _ _
      refine ⟨trivial, ?_⟩
      cases r with
      | error x => trivial
      | ok n => exact along_done _ (fun _ _ _ => trivial) fun r _ => along_awaited r
  | assignRole householdId roleId userId actorUserId =>
      refine Contract.Along.bind (RolesService.findOne_along (fun _ _ => trivial) ?_)
      intro role h' db' _ _ _
      refine Contract.Along.bind (query_along (fun _ _ => trivial) fun user _ => ?_)
      cases user with
      | none => trivial
      | some user =>
          refine Contract.Along.bind
            (RolesService.checkDelegation_along (fun _ _ => trivial) fun _ _ _ => ?_)
          exact along_done _ (fun _ _ _ => trivial) fun r _ => along_awaited r
  | unassignRole householdId roleId userId =>
      refine Contract.Along.bind (query_along (fun _ _ => trivial) fun assignment _ => ?_)
      cases assignment with
      | none => trivial
      | some assignment =>
          exact along_done _ (fun _ _ _ => trivial) fun r _ => along_awaited r

theorem roleUpdates_holds : (roleUpdates rt registry).Holds where
  drift _ _ _ hd := hd.elim
  call _ _ _ _ _ _ _ _ := ⟨trivial, trivial, fun _ hq => by cases hq⟩
  arrive _ _ _ _ := trivial
  body q _ _ _ := (q.updates_along).mono fun _ _ _ => trivial

/-! ## Every interleaving -/

/-- **Role updates add what was checked.** In every run whose role writes find what was
read and listed still in the role, every permission that a call of an update puts into any
role is one that the actor could delegate at some moment of the request. -/
theorem role_updates_checked {db₀ : Db} {w : World Db RolesRequest Call Answer ServiceError Row}
    (hw : (rolesSystem rt registry).Reach StillStored db₀ w) :
    ∀ t ∈ w.threads, t.past.EachCall (AddsDelegable rt registry t.req) :=
  Contract.sound_calls roleUpdates_holds trivial hw

end

/-! ## Two schedules on the seed -/

/-- Bob lists what his role has and gets as far as reading it; Alice writes `l` to the role;
Bob's write lands. -/
def bobAroundAlice (l : List String) : List (Move Db RolesRequest) :=
  [.arrive (.update 1 2 2 none (some ["accounts:create"])), .call 0,
    .arrive (.update 1 2 1 none (some l)), .call 1, .call 1, .call 1, .call 0]

def bobAroundAliceWorld (l : List String) : World Db RolesRequest Call Answer ServiceError Row :=
  (rolesSystem Runtime.closed accountsRegistry).playAll (fun e c => Runtime.closed.answer c e)
    ⟨seeded, []⟩ (bobAroundAlice l)

theorem reach_bobAroundAlice {l : List String}
    {ok : RolesRequest → History Db Call Answer → (c : Call) → Answer c → Db → Prop}
    (hok : (rolesSystem Runtime.closed accountsRegistry).Meets
      (fun e c => Runtime.closed.answer c e) ok ⟨seeded, []⟩ (bobAroundAlice l)) :
    (rolesSystem Runtime.closed accountsRegistry).Reach ok seeded (bobAroundAliceWorld l) := by
  refine System.reach_play (fun e c => Runtime.Exec.answered e c) (fun m hm => ?_) hok
  simp only [bobAroundAlice, List.mem_cons, List.not_mem_nil, or_false] at hm
  rcases hm with rfl | rfl | rfl | rfl | rfl | rfl | rfl <;> trivial

/-- Alice adds a permission between the two halves of Bob's update: both writes find what
was read still in the role, and so both are checked. -/
theorem role_updates_checked_example :
    (bobAroundAliceWorld ["accounts:create", "accounts:delete"]).threads.length = 2 ∧
      ∀ t ∈ (bobAroundAliceWorld ["accounts:create", "accounts:delete"]).threads,
        t.past.EachCall (AddsDelegable Runtime.closed accountsRegistry t.req) :=
  ⟨by decide +kernel, role_updates_checked (reach_bobAroundAlice (by decide +kernel))⟩

/-- Does the request's last call write a permission that was not in the role, and that the
actor could not delegate at any moment of the request? -/
def lastWriteUnchecked (registry : PermissionRegistry)
    (t : Thread Db RolesRequest Call Answer ServiceError Row) : Bool :=
  match t.past with
  | .own h _ _ db' => match t.req with
    | .update _ id actorUserId _ (some l) => l.any fun p =>
        decide (db'.rows.stored id p) && !h.now.rows.stored id p &&
          h.moments.all fun db => !decide (db.rows.grantable registry actorUserId p)
    | _ => false
  | _ => false

theorem DelegableAt.grantable {rt : Runtime} {registry : PermissionRegistry} {actor : ℤ}
    {p : String} {db : Db} (h : DelegableAt rt registry actor p db) :
    db.rows.grantable registry actor p := by
  obtain ⟨l, hl, hdelegate⟩ := h
  obtain ⟨q, hq, hmem⟩ := PermissionRegistry.canDelegate_iff.mp hdelegate
  exact ⟨q, hq, mem_effectivePermissions.mp ((hl q).mp hmem)⟩

theorem not_checked_of_lastWrite {rt : Runtime} {registry : PermissionRegistry}
    {t : Thread Db RolesRequest Call Answer ServiceError Row}
    (h : lastWriteUnchecked registry t = true) :
    ¬ t.past.EachCall (AddsDelegable rt registry t.req) := by
  obtain ⟨q, prog, past⟩ := t
  unfold lastWriteUnchecked at h
  split at h
  · rename_i h' c r db' hpast
    dsimp only at hpast h ⊢
    subst hpast
    split at h
    · obtain ⟨p, hp, hadd⟩ := List.any_eq_true.mp h
      simp only [Bool.and_eq_true, decide_eq_true_eq, Bool.not_eq_true', decide_eq_false_iff_not,
        List.all_eq_true] at hadd
      intro hall
      obtain ⟨db, hmem, hdelegable⟩ := hall.2 _ p hadd.1.1 hadd.1.2
      exact hadd.2 db hmem hdelegable.grantable
    · cases h
  · cases h

/-- **A write puts back what nobody checked**: Alice has taken `accounts:create` out of the
role, and Bob, who could never delegate it, writes it again. -/
theorem update_restores_unchecked :
    ∃ w, (rolesSystem Runtime.closed accountsRegistry).Reach anyCall seeded w ∧
      ∃ t ∈ w.threads, ¬ t.past.EachCall (AddsDelegable Runtime.closed accountsRegistry t.req) := by
  refine ⟨bobAroundAliceWorld ["accounts:read"],
    reach_bobAroundAlice (System.meets_anyCall _ _), ?_⟩
  have hlast : (bobAroundAliceWorld ["accounts:read"]).threads.any
      (lastWriteUnchecked accountsRegistry) = true := by
    decide +kernel
  obtain ⟨t, ht, hunchecked⟩ := List.any_eq_true.mp hlast
  exact ⟨t, ht, not_checked_of_lastWrite hunchecked⟩

end EngineeringLab.FinanceTracker
