/-
What a role operation that throws has changed.

An operation is several awaited calls; nothing in the repository uses a transaction. All
but `remove` write in their last call, so what throws has written nothing. `remove` writes
twice: it deletes the assignments of the role and then the role, and when the second call
fails (an assignment came in meanwhile and restricts it, the role is gone, the database
cannot be reached) the first stays done, and the role that nobody holds any more is still
there (`remove_half_done`). That is the only exception (`role_operations_atomic`).

The tables are what is compared: a failed insert has used up a number of the sequence.

Since the calls of a request interleave with those of others, "has changed nothing" cannot
mean that the tables are equal at its start and at its end. It means that none of its own
calls has changed a row: the theorem is about the steps that are the request's own, in every
run, and compares the tables before and after each of them.
-/
import EngineeringLab.Concurrency.OwnCalls
import EngineeringLab.FinanceTracker.Isolation
import EngineeringLab.FinanceTracker.RoleUpdates

set_option autoImplicit false

open Concurrency

namespace EngineeringLab.FinanceTracker

/-- The call leaves the tables as they were. -/
def LeavesTables (h : History Db Call Answer) (c : Call) (_ : Answer c) (e : Db) : Prop :=
  ∀ m, e.rows m = h.now.rows m

instance (h : History Db Call Answer) (c : Call) (r : Answer c) (e : Db) :
    Decidable (LeavesTables h c r e) :=
  inferInstanceAs (Decidable (∀ m, e.rows m = h.now.rows m))

/-- Nobody holds the role `id`. -/
def Tables.unheld (t : Tables) (id : ℤ) : Prop :=
  ∀ a ∈ t .userRoleAssignment, a .roleId ≠ .int id

/-- The calls of a removal that gets stuck: the assignments of the role are deleted and
nothing else, and the delete of the role, which is refused, finds that the role is gone or
held, or that the database cannot be reached. -/
def HalfRemoves (id : ℤ) (h : History Db Call Answer) (c : Call) (r : Answer c) (e : Db) : Prop :=
  match c, r with
  | .deleteMany _ _, _ =>
    e.rows = Function.update h.now.rows .userRoleAssignment
      ((h.now.rows .userRoleAssignment).filter fun a => a .roleId ≠ .int id)
  | .delete m w, r => LeavesTables h (.delete m w) r e ∧
      ((∀ role ∈ h.now.rows .customRole, role .id ≠ .int id) ∨ ¬ h.now.rows.unheld id ∨
        r = .error .unavailable)
  | c, r => LeavesTables h c r e

/-- How a request ends: if it throws, its own calls have left the tables, or it is a removal
that got stuck. -/
def Spared {α : Type} (q : RolesRequest) (o : Except ServiceError α) (h : History Db Call Answer) :
    Prop :=
  ∀ x, o = .error x → h.EachCall LeavesTables ∨
    ∃ householdId id, q = .remove householdId id ∧ h.EachCall (HalfRemoves id)

/-- Nothing is relied on: a request's own calls say what they have done. -/
def atomicRoles (rt : Runtime) (registry : PermissionRegistry) :
    Contract (rolesSystem rt registry) where
  inv _ := True
  rely _ _ := True
  pre _ _ := True
  ok := anyCall
  guar _ _ _ _ _ := True
  post := Spared

section

variable {rt : Runtime} {registry : PermissionRegistry} {q : RolesRequest}
  {h : History Db Call Answer}

/-! ## Rules for the parts of a request -/

/-- A call that never writes. -/
def Reads (rt : Runtime) (c : Call) : Prop :=
  ∀ (db : Db) (r : Answer c) (db' : Db), rt.Exec db c r db' → db'.rows = db.rows

theorem reads_findFirst {m : Model} {w : Where} {incl : Include} :
    Reads rt (.findFirst m w incl) := by
  intro db r db' hexec
  rw [hexec.findFirst.1]

theorem reads_findMany {m : Model} {w : Where} {incl : Include} :
    Reads rt (.findMany m w incl) := by
  intro db r db' hexec
  rw [hexec.findMany.1]

/-- Reading before the first write leaves the tables. -/
theorem along_reads {α : Type} {p : Service α} {post : Except ServiceError α →
      History Db Call Answer → Prop} (hp : p.Obeys (Reads rt) fun _ => True)
    (hleft : h.EachCall LeavesTables) (hpost : ∀ o h', h'.EachCall LeavesTables → post o h') :
    (atomicRoles rt registry).Along q p h post := by
  induction p generalizing h with
  | ret a => exact hpost _ _ hleft
  | throw x => exact hpost _ _ hleft
  | call c k ih =>
      intro h' hx _ r e hexec _
      have hrows : e.rows = h'.now.rows := hp.1 _ _ _ hexec
      exact ⟨trivial, ih r (hp.2 r) ⟨hx.eachCall_iff.mpr hleft, congrFun hrows⟩⟩

/-- A read whose error is thrown, and what comes after it. -/
theorem along_then {α β : Type} {p : Service α} {f : α → Service β}
    (hp : p.Obeys (Reads rt) fun _ => True) (hleft : h.EachCall LeavesTables)
    (hf : ∀ a h', h'.EachCall LeavesTables →
      (atomicRoles rt registry).Along q (f a) h' (Spared q)) :
    (atomicRoles rt registry).Along q (p >>= f) h (Spared q) := by
  refine Contract.Along.bind (along_reads hp hleft fun o h' hleft' => ?_)
  cases o with
  | ok a => exact hf a h' hleft'
  | error x => exact fun _ _ => .inl hleft'

/-- The last call of a request: it succeeds, or leaves the tables. -/
theorem along_last {α : Type} {c : Call} (answer : Answer c → Except PrismaError α)
    (hleft : h.EachCall LeavesTables)
    (hlast : ∀ db r db', rt.Exec db c r db' → (∃ a, answer r = .ok a) ∨ db'.rows = db.rows) :
    (atomicRoles rt registry).Along q (.call c fun r => awaited (answer r)) h (Spared q) := by
  intro h' hx _ r e hexec _
  refine ⟨trivial, ?_⟩
  dsimp only
  have hleft' := hx.eachCall_iff.mpr hleft
  -- a call that succeeds ends the request, and nothing is thrown
  rcases hlast _ _ _ hexec with ⟨a, hok⟩ | hrows
  · rw [hok]
    intro x herror
    cases herror
  · cases answer r with
    | ok a =>
        intro x herror
        cases herror
    | error err => exact fun _ _ => .inl ⟨hleft', congrFun hrows⟩

theorem create_last {m : Model} {data : Js} (hleft : h.EachCall LeavesTables) :
    (atomicRoles rt registry).Along q (create m data) h (Spared q) := by
  refine along_last (c := .create m data) (fun r => r) hleft fun db r db' hexec => ?_
  rcases hexec.create_run with ⟨_, -, hrows⟩ | ⟨row, hok, -⟩
  · exact .inr hrows
  · exact .inl ⟨row, hok⟩

theorem update_last {m : Model} {w : Where} {data : Js} (hleft : h.EachCall LeavesTables) :
    (atomicRoles rt registry).Along q (update m w data) h (Spared q) := by
  refine along_last (c := .update m w data) (fun r => r) hleft fun db r db' hexec => ?_
  rcases hexec.update_run with ⟨_, -, hrows⟩ | ⟨row, hit, -, hok, -⟩
  · exact .inr hrows
  · exact .inl ⟨row, hok⟩

theorem delete_last {m : Model} {w : Where} (hleft : h.EachCall LeavesTables) :
    (atomicRoles rt registry).Along q (delete m w) h (Spared q) := by
  refine along_last (c := .delete m w) (fun r => r) hleft fun db r db' hexec => ?_
  rcases hexec.delete with ⟨_, -, hrows⟩ | ⟨row, hit, -, hok, -⟩
  · exact .inr hrows
  · exact .inl ⟨row, hok⟩

/-! ## The two writes of `remove` -/

/-- What deleting the assignments of a role leaves. -/
theorem deleteMany_role {db db' : Db} {id : ℤ} {n : ℕ}
    (hexec : rt.Exec db (.deleteMany .userRoleAssignment [(.roleId, .int id)]) (.ok n) db') :
    db'.rows = Function.update db.rows .userRoleAssignment
      ((db.rows .userRoleAssignment).filter fun a => a .roleId ≠ .int id) := by
  rcases hexec.deleteMany with ⟨_, herror, -⟩ | ⟨n, hit, hcond, -, hrows⟩
  · cases herror
  · rw [condition_column rt rfl] at hcond
    split at hcond
    · rw [hrows, Tables.deleted_of_ne (by decide), ← Option.some.inj hcond]
      simp
    · cases hcond

/-- Only assignments refer to roles. -/
theorem Model.references_customRole (child : Model) : ∀ fk ∈ child.foreignKeys,
    fk.target = .customRole → child = .userRoleAssignment ∧ fk.col = .roleId := by
  cases child <;> decide

/-- A role that is there and that nobody holds is deleted, if the database can be reached. -/
theorem delete_refused {h' : History Db Call Answer} {db' : Db} {id : ℤ} {err : PrismaError}
    (hexec : rt.Exec h'.now (.delete .customRole [(.id, .int id)]) (.error err) db') :
    HalfRemoves id h' (.delete .customRole [(.id, .int id)]) (.error err) db' := by
  have hrows : db'.rows = h'.now.rows := by
    rcases hexec.delete with ⟨_, -, hrows⟩ | ⟨row, -, -, hok, -⟩
    · exact hrows
    · cases hok
  refine ⟨congrFun hrows, ?_⟩
  by_contra hnone
  push Not at hnone
  obtain ⟨⟨role, hmem, hid⟩, hunheld, hreached⟩ := hnone
  -- nobody holds the role, so nothing restricts its deletion
  have hvalid : Valid (h'.now.rows.deleted .customRole (hasId (.int id))) := by
    refine h'.now.valid.deleted fun child a ha fk hfk htarget _ p hp hhit hrefers => ?_
    obtain ⟨rfl, hcol⟩ := child.references_customRole fk hfk htarget
    have hpid : p .id = .int id := by simpa [hasId] using hhit
    rw [hcol, hpid] at hrefers
    exact hunheld a ha hrefers.symm
  have hdeleted : db'.rows = h'.now.rows.deleted .customRole (hasId (.int id)) := by
    generalize hanswer : (Except.error err : Except PrismaError Row) = r at hexec hreached
    cases hexec with
    | unreachable hnone =>
        cases hnone
        exact absurd rfl hreached
    | answered => exact rt.answer_delete rfl hmem hid hvalid
  -- the tables are as before, but the role is not in them any more
  rw [hrows] at hdeleted
  have hstill : role ∈ h'.now.rows.deleted .customRole (hasId (.int id)) .customRole := by
    rwa [← hdeleted]
  rw [Tables.deleted_of_ne (by decide), Function.update_self, List.mem_filter] at hstill
  simp [hasId, hid] at hstill

/-- The first call of a removal. -/
theorem findOne_along {householdId id : ℤ} {db : Db}
    {post : Except ServiceError Entity → History Db Call Answer → Prop}
    (hpost : ∀ o h', h'.EachCall LeavesTables → h'.EachCall (HalfRemoves id) → post o h') :
    (atomicRoles rt registry).Along q (RolesService.findOne householdId id) (.start db) post := by
  refine Contract.Along.bind ?_
  intro h' hx _ r e hexec _
  refine ⟨trivial, ?_⟩
  have hrows : ∀ m, e.rows m = h'.now.rows m := congrFun (by rw [hexec.findFirst.1])
  have hleft : (History.own h' _ r e).EachCall LeavesTables :=
    ⟨hx.eachCall_iff.mpr trivial, hrows⟩
  have hhalf : (History.own h' _ r e).EachCall (HalfRemoves id) :=
    ⟨hx.eachCall_iff.mpr trivial, hrows⟩
  cases r with
  | error err => exact hpost _ _ hleft hhalf
  | ok role =>
      cases role with
      | none => exact hpost _ _ hleft hhalf
      | some role => exact hpost _ _ hleft hhalf

theorem remove_along {householdId id : ℤ} (hq : q = .remove householdId id) {db : Db} :
    (atomicRoles rt registry).Along q (RolesService.remove householdId id) (.start db)
      (Spared q) := by
  refine Contract.Along.bind (findOne_along fun o h₁ hleft₁ hhalf₁ => ?_)
  cases o with
  | error x => exact fun _ _ => .inl hleft₁
  | ok role =>
      refine Contract.Along.bind ?_
      intro h₂ hx₂ _ r₂ e₂ hexec₂ _
      refine ⟨trivial, ?_⟩
      cases r₂ with
      | error err =>
          -- the first deletion threw, and has deleted nothing
          intro x _
          rcases hexec₂.deleteMany with ⟨_, -, hrows⟩ | ⟨n, hit, -, hok, -⟩
          · exact .inl ⟨hx₂.eachCall_iff.mpr hleft₁, congrFun hrows⟩
          · cases hok
      | ok n =>
          have hhalf₂ : (History.own h₂ (.deleteMany .userRoleAssignment [(.roleId, .int id)])
              (.ok n) e₂).EachCall (HalfRemoves id) :=
            ⟨hx₂.eachCall_iff.mpr hhalf₁, deleteMany_role hexec₂⟩
          intro h₃ hx₃ _ r₃ e₃ hexec₃ _
          refine ⟨trivial, ?_⟩
          cases r₃ with
          | ok row =>
              intro x herror
              cases herror
          | error err =>
              -- stuck: the assignments are gone, and the role is refused
              intro x _
              refine .inr ⟨householdId, id, hq, hx₃.eachCall_iff.mpr hhalf₂, ?_⟩
              exact delete_refused hexec₃

/-! ## Every request -/

theorem RolesRequest.atomic_along (q : RolesRequest) {db : Db} :
    (atomicRoles rt registry).Along q (q.body registry) (.start db) (Spared q) := by
  have hfirst : ∀ m w incl, Reads rt (.findFirst m w incl) := fun _ _ _ => reads_findFirst
  have hmany : ∀ m w incl, Reads rt (.findMany m w incl) := fun _ _ _ => reads_findMany
  have hstart : (History.start db : History Db Call Answer).EachCall LeavesTables := trivial
  -- Everything before the last call only reads, and the last call is one statement.
  -- `remove` has two.
  cases q with
  | create householdId actorUserId name permissions =>
      refine along_then RolesService.validatePermissionKeys_obeys hstart fun _ h₁ hleft₁ => ?_
      refine along_then (RolesService.checkDelegation_obeys hmany) hleft₁ fun _ h₂ hleft₂ => ?_
      exact create_last hleft₂
  | update householdId id actorUserId name permissions =>
      refine along_then (RolesService.findOne_obeys hfirst) hstart fun existing h₁ hleft₁ => ?_
      cases permissions with
      | none => exact update_last hleft₁
      | some l =>
          refine along_then RolesService.validatePermissionKeys_obeys hleft₁ fun _ h₂ hleft₂ => ?_
          dsimp only
          split
          · refine along_then (RolesService.checkDelegation_obeys hmany) hleft₂
              fun _ h₃ hleft₃ => ?_
            exact update_last hleft₃
          · exact update_last hleft₂
  | remove householdId id => exact remove_along rfl
  | assignRole householdId roleId userId actorUserId =>
      refine along_then (RolesService.findOne_obeys hfirst) hstart fun role h₁ hleft₁ => ?_
      refine along_then (call_obeys (hfirst _ _ _)) hleft₁ fun user h₂ hleft₂ => ?_
      cases user with
      | none => exact fun _ _ => .inl hleft₂
      | some user =>
          refine along_then (RolesService.checkDelegation_obeys hmany) hleft₂ fun _ h₃ hleft₃ => ?_
          exact create_last hleft₃
  | unassignRole householdId roleId userId =>
      refine along_then (call_obeys (hfirst _ _ _)) hstart fun assignment h₁ hleft₁ => ?_
      cases assignment with
      | none => exact fun _ _ => .inl hleft₁
      | some assignment => exact delete_last hleft₁

/-! ## Every interleaving -/

/-- **What throws has changed nothing**, in every run, but for a removal that got stuck
between its two writes. -/
theorem role_operations_atomic {db₀ : Db} {w : World Db RolesRequest Call Answer ServiceError Row}
    (hw : (rolesSystem rt registry).Reach anyCall db₀ w) :
    ∀ t ∈ w.threads, ∀ x, t.prog = .throw x → t.past.EachCall LeavesTables ∨
      ∃ householdId id, t.req = .remove householdId id ∧ t.past.EachCall (HalfRemoves id) := by
  intro t ht x hx
  have hspared : Spared t.req (.error x) t.past :=
    Contract.own_sound (fun q _ => q.atomic_along) hw ht (by rw [hx]; rfl)
  exact hspared x rfl

end

/-! ## A removal on the seed -/

/-- A removal of the role `id`, once its permissions are few enough for Alice to assign it:
she makes herself a holder before the role is deleted. -/
def aliceAmidRemoval (id : ℤ) : List (Move Db RolesRequest) :=
  [.arrive (.update 1 id 1 none (some ["accounts:read"])), .call 0, .call 0,
    .arrive (.remove 1 id), .call 1, .call 1,
    .arrive (.assignRole 1 id 1 1), .call 2, .call 2, .call 2, .call 2, .call 1]

def aliceAmidRemovalWorld (id : ℤ) : World Db RolesRequest Call Answer ServiceError Row :=
  (rolesSystem Runtime.closed accountsRegistry).playAll (fun e c => Runtime.closed.answer c e)
    ⟨seeded, []⟩ (aliceAmidRemoval id)

theorem reach_aliceAmidRemoval {id : ℤ} :
    (rolesSystem Runtime.closed accountsRegistry).Reach anyCall seeded
      (aliceAmidRemovalWorld id) := by
  refine System.reach_play (fun e c => Runtime.Exec.answered e c) (fun m hm => ?_)
    (System.meets_anyCall _ _)
  simp only [aliceAmidRemoval, List.mem_cons, List.not_mem_nil, or_false] at hm
  rcases hm with rfl | rfl | rfl | rfl | rfl | rfl | rfl | rfl | rfl | rfl | rfl | rfl <;> trivial

/-- A removal that the foreign key of the assignments has refused. -/
def refused (t : Thread Db RolesRequest Call Answer ServiceError Row) : Bool :=
  match t.req, t.prog with
  | .remove _ _, .throw (.prisma .foreignKeyConstraint) => true
  | _, _ => false

theorem throws_of_refused {t : Thread Db RolesRequest Call Answer ServiceError Row}
    (h : refused t = true) : t.prog = .throw (.prisma .foreignKeyConstraint) := by
  unfold refused at h
  split at h
  · assumption
  · cases h

/-- Alice makes herself a holder of the role while it is being removed, so its deletion is
refused: the removal throws, half done as the exception says. -/
theorem role_operations_atomic_example :
    (aliceAmidRemovalWorld 2).threads.any refused = true ∧
      ∀ t ∈ (aliceAmidRemovalWorld 2).threads, ∀ x, t.prog = .throw x →
        t.past.EachCall LeavesTables ∨
          ∃ householdId id, t.req = .remove householdId id ∧ t.past.EachCall (HalfRemoves id) :=
  ⟨by decide +kernel, role_operations_atomic reach_aliceAmidRemoval⟩

/-- **A removal is half done**: Bob is a member no more, and the role of members, which the
removal failed to delete, is still there. -/
theorem remove_half_done :
    ∃ w, (rolesSystem Runtime.closed accountsRegistry).Reach anyCall seeded w ∧
      (∃ t ∈ w.threads, (∃ x, t.prog = .throw x) ∧ ¬ t.past.EachCall LeavesTables) ∧
      (∃ role ∈ w.env.rows .customRole, role .id = .int 2) ∧
      ∀ a ∈ w.env.rows .userRoleAssignment, a .userId ≠ .int 2 := by
  have hhalf : (aliceAmidRemovalWorld 2).threads.any
      (fun t => refused t && !decide (t.past.EachCall LeavesTables)) = true := by
    decide +kernel
  obtain ⟨t, ht, hboth⟩ := List.any_eq_true.mp hhalf
  simp only [Bool.and_eq_true, Bool.not_eq_true', decide_eq_false_iff_not] at hboth
  exact ⟨aliceAmidRemovalWorld 2, reach_aliceAmidRemoval,
    ⟨t, ht, ⟨_, throws_of_refused hboth.1⟩, hboth.2⟩, by decide +kernel, by decide +kernel⟩

end EngineeringLab.FinanceTracker
