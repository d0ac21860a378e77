/-
Tenant write isolation: what one operation of household `H` does to the rows of the
others.

All operations but two write rows of `H` only (`Operation.writes`). The two are:
`unassignRole`, which looks the assignment up by user and role and never uses the
household it is given, and the deletion of a category, whose `ON DELETE SET NULL`
reaches the transactions that refer to it, whoever's they are. `isolated_iff` says
exactly when an operation leaves the others alone, and both cases occur.
-/
import EngineeringLab.FinanceTracker.Operations

set_option autoImplicit false

open Concurrency

namespace EngineeringLab.FinanceTracker

/-- What keeps an operation within its household: the assignment that `unassignRole` finds
is one of a role of the household; and a category of the household that is to be deleted has
a budget, which restricts the deletion, or is used by no transaction of another household. -/
def Operation.Isolated (H : ℤ) (t : Tables) : Operation → Prop
  | unassignRole roleId userId => ∀ a ∈ t .userRoleAssignment,
      a .userId = .int userId → a .roleId = .int roleId →
        ∀ k, t.Owns k .userRoleAssignment a → k = H
  | categories (.remove id) => ∀ c ∈ t .category, c .id = .int id → c .householdId = .int H →
      (∃ b ∈ t .budget, b .categoryId = .int id) ∨
        ∀ x ∈ t .transaction, x .categoryId = .int id → x .householdId = .int H
  | _ => True

/-! ## The deletion of a category -/

section

variable {t : Tables} {H : ℤ} {hit : Row → Bool}

/-- References to deleted categories are set to null in the transactions. -/
theorem Tables.deleted_category (t : Tables) (hit : Row → Bool) :
    t.deleted .category hit = Function.update
      (Function.update t .category ((t .category).filter fun c => !hit c)) .transaction
        ((t .transaction).map fun r c =>
          if t.orphaned .category hit .transaction c (r c) then .null else r c) := by
  have hnone : ∀ (child : Model), child ≠ .transaction → ∀ c v,
      t.orphaned .category hit child c v = false := fun child hchild _ =>
    Tables.not_orphaned fun fk hfk hnull _ => hchild (child.setNull_category fk hfk hnull).1
  funext child
  by_cases hchild : child = .transaction
  · subst hchild
    rw [Function.update_self, Tables.deleted, Function.update_of_ne (by decide)]
  · rw [Function.update_of_ne hchild, Tables.deleted]
    simp [hnone child hchild]

/-- Deleting categories of `H` that only `H` uses is a matter of `H`. -/
theorem Frame.of_deleted_category (hown : ∀ c ∈ t .category, hit c = true → c .householdId = .int H)
    (huse : ∀ x ∈ t .transaction, ∀ c ∈ t .category, hit c = true → c .id = x .categoryId →
      x .householdId = .int H) : Frame H t (t.deleted .category hit) := by
  rw [Tables.deleted_category]
  have hcategory : Frame H t
      (Function.update t .category ((t .category).filter fun c => !hit c)) := by
    refine Frame.of_filter fun c hc hgone k hk => ?_
    exact int_inj (hown c hc (by simpa using hgone)) hk
  have hsame : (Function.update t .category ((t .category).filter fun c => !hit c)) .transaction =
      t .transaction := Function.update_of_ne (by decide) _ _
  rw [← hsame]
  refine hcategory.trans (Frame.of_map fun x hx => ?_)
  rw [hsame] at hx
  by_cases horphan : ∃ c, t.orphaned .category hit .transaction c (x c) = true
  · obtain ⟨c, horphan⟩ := horphan
    obtain ⟨⟨fk, hfk, rfl, htarget, hnull⟩, p, hp, hid, hhit⟩ := Tables.orphaned_iff.mp horphan
    rw [(Model.setNull_category _ fk hfk hnull).2] at hid
    have hH := huse x hx p hp hhit hid
    refine .inr ⟨fun k hk => int_inj hH hk, fun k hk => int_inj hH ?_⟩
    -- the household of the transaction is not what is set to null
    have hkeep : t.orphaned .category hit .transaction .householdId (x .householdId) = false := by
      simp [Tables.orphaned, Model.foreignKeys]
    simpa [Tables.Owns, hkeep] using hk
  · refine .inl (funext fun c => ?_)
    rw [if_neg fun h => horphan ⟨c, h⟩]

end

/-! ## What the two operations do -/

section

variable {rt : Runtime} {app : App} {H : ℤ} {db db' : Db}

/-- What `delete` of a row by its id does, when nothing restricts it. -/
theorem Runtime.answer_delete {m : Model} (hf : m.field? .id = some (.required .id .int))
    {row : Row} (hrow : row ∈ db.rows m) {z : ℤ} (hz : row .id = .int z)
    (hvalid : Valid (db.rows.deleted m (hasId (.int z)))) :
    (rt.answer (.delete m [(.id, .int z)]) db).2.rows = db.rows.deleted m (hasId (.int z)) := by
  obtain ⟨hit, hcond, hhit⟩ : ∃ hit, rt.condition m [(.id, .int z)] = some hit ∧ hit row = true :=
    Runtime.condition_ints (w := [(.id, z)]) (by simpa using ⟨_, hf, rfl⟩)
      (by simpa using ⟨hz, db.valid.int4 hrow hf hz⟩)
  obtain ⟨first, rows, hselected⟩ : ∃ first rows, (db.rows m).filter hit = first :: rows :=
    List.exists_cons_of_ne_nil (List.ne_nil_of_mem (List.mem_filter.mpr ⟨hrow, hhit⟩))
  have hfirst : first .id = .int z := by
    have hmem := List.mem_filter.mp
      (hselected ▸ List.mem_cons_self : first ∈ (db.rows m).filter hit)
    exact Runtime.condition_int hcond hmem.2 (c := .id) List.mem_cons_self hf rfl
  simp only [Runtime.answer, Runtime.selecting, hcond, transaction, deleteProgram, Prog.run_bind,
    sqlSelect, Prog.run_call, Prog.run_ret, Sql.exec, hselected, sqlDelete, Db.delete, hfirst,
    Db.commit_of_valid _ hvalid]
  rfl

theorem Runtime.answer_deleteMany {m : Model} {w : Where} {hit : Row → Bool}
    (hcond : rt.condition m w = some hit) (hvalid : Valid (db.rows.deleted m hit)) :
    (rt.answer (.deleteMany m w) db).2.rows = db.rows.deleted m hit := by
  simp only [Runtime.answer, Runtime.selecting, hcond, transaction, Prog.run_call, Prog.run_ret,
    Sql.exec, sqlDelete, Db.delete, Db.commit_of_valid _ hvalid]

/-! ## When each of the two is isolated -/

theorem unassignRole_frame {roleId userId : ℤ}
    (h : Operation.Isolated H db.rows (.unassignRole roleId userId)) :
    ((Operation.unassignRole roleId userId).body rt app H).Always rt.Exec db
      fun _ db' => Frame H db.rows db'.rows := by
  refine discard_always (Prog.Always.bind (findFirst_always (fun _ => .refl _ _) (.refl _ _) ?_))
  intro hit a hcond ha hhit
  have huser := Runtime.condition_int hcond hhit (c := .userId) List.mem_cons_self rfl rfl
  have hrole := Runtime.condition_int hcond hhit (c := .roleId)
    (List.mem_cons_of_mem _ List.mem_cons_self) rfl rfl
  obtain ⟨z, hz, -⟩ := db.valid.id_int ha
  have hwrites : (FinanceTracker.delete .userRoleAssignment [(.id, .int z)]).Always rt.Exec db
      fun _ db' => TenantWrites H (fun _ => False) db.rows db'.rows := by
    refine delete_writes (by decide) rfl fun row hrow hid k hown => ?_
    have heq : row = a := db.valid.eq_of_id hrow ha (hid.trans hz.symm)
    exact h a ha huser hrole k (heq ▸ hown)
  have hjs : ((db.rows.entity .userRoleAssignment [] a).row .id).toJs = Js.int z := by
    show (a .id).toJs = Js.int z
    rw [hz]
    rfl
  dsimp only
  rw [hjs]
  exact hwrites.mono fun _ _ hw => hw.frame

theorem unassignRole_isolated {roleId userId : ℤ}
    (h : ((Operation.unassignRole roleId userId).body rt app H).Always rt.Exec db
      fun _ db' => Frame H db.rows db'.rows) :
    Operation.Isolated H db.rows (.unassignRole roleId userId) := by
  intro a ha huser hrole k hown
  by_contra hk
  obtain ⟨hit, hcond, hhit⟩ : ∃ hit, rt.condition .userRoleAssignment
      [(.userId, .int userId), (.roleId, .int roleId)] = some hit ∧ hit a = true :=
    Runtime.condition_ints (w := [(.userId, userId), (.roleId, roleId)])
      (by simpa using ⟨⟨_, rfl, rfl⟩, ⟨_, rfl, rfl⟩⟩)
      (by simpa using ⟨⟨huser, db.valid.int4 ha (c := .userId) rfl huser⟩,
        hrole, db.valid.int4 ha (c := .roleId) rfl hrole⟩)
  obtain ⟨z, hz, -⟩ := db.valid.id_int ha
  -- nothing refers to an assignment, so the deletion goes through
  have hvalid : Valid (db.rows.deleted .userRoleAssignment (hasId (.int z))) := by
    refine db.valid.deleted fun child r _ fk hfk htarget => ?_
    exact absurd htarget (by revert fk; cases child <;> decide)
  have hdelete := h _ _ (.found db hcond ha hhit)
  have hframe : Frame H db.rows (rt.answer
      (.delete .userRoleAssignment [(.id, (a .id).toJs)]) db).2.rows :=
    discard_call_always.mp hdelete _ _ (.answered db _)
  rw [hz, show Value.toJs (.int z) = Js.int z from rfl,
    Runtime.answer_delete rfl ha hz hvalid, Tables.deleted_of_ne (by decide)] at hframe
  have hmem := ((hframe k hk .userRoleAssignment a).mp ⟨ha, hown⟩).1
  rw [Function.update_self, List.mem_filter] at hmem
  simp [hasId, hz] at hmem

theorem removeCategory_frame {id : ℤ}
    (h : Operation.Isolated H db.rows (.categories (.remove id))) :
    ((Operation.categories (.remove id)).body rt app H).Always rt.Exec db
      fun _ db' => Frame H db.rows db'.rows := by
  refine discard_always (deleteMany_always fun r db' hexec => ?_)
  rcases hexec.deleteMany with ⟨e, -, hrows⟩ | ⟨n, hit, hcond, -, hrows⟩
  · rw [hrows]
    exact .refl _ _
  · rw [hrows]
    refine Frame.of_deleted_category (fun c _ hhit => (condition_ownRow hcond hhit rfl rfl).2) ?_
    intro x hx c hc hhit href
    obtain ⟨hid, hown⟩ := condition_ownRow hcond hhit rfl rfl
    rcases h c hc hid hown with ⟨b, hb, hbudget⟩ | huse
    · -- the deletion has gone through, so no budget was in the way
      have hb' : b ∈ db'.rows .budget := by
        rw [hrows, Tables.deleted_category, Function.update_of_ne (by decide),
          Function.update_of_ne (by decide)]
        exact hb
      rcases db'.valid.refs _ b hb' ⟨.categoryId, .category, "category", "budgets", .restrict⟩
        (by simp [Model.foreignKeys]) with hnull | ⟨p, hp, hpid⟩
      · rw [hbudget] at hnull
        cases hnull
      · rw [hrows, Tables.deleted_category, Function.update_of_ne (by decide),
          Function.update_self, List.mem_filter] at hp
        have heq : p = c := db.valid.eq_of_id hp.1 hc (by rw [hpid, hbudget, hid])
        rw [heq, hhit] at hp
        exact absurd hp.2 (by decide)
    · -- its transactions lose their category, and all of them are of the household
      exact huse x hx (href ▸ hid)

theorem removeCategory_isolated {id : ℤ}
    (h : ((Operation.categories (.remove id)).body rt app H).Always rt.Exec db
      fun _ db' => Frame H db.rows db'.rows) :
    Operation.Isolated H db.rows (.categories (.remove id)) := by
  intro c hc hid hown
  by_contra hnot
  rw [not_or] at hnot
  obtain ⟨hbudget, huse⟩ := hnot
  push Not at huse
  obtain ⟨x, hx, href, hother⟩ := huse
  obtain ⟨hit, hcond, hhit⟩ :
      ∃ hit, rt.condition .category (ownRow id H) = some hit ∧ hit c = true :=
    Runtime.condition_ints (w := [(.id, id), (.householdId, H)])
      (by simpa using ⟨⟨_, rfl, rfl⟩, ⟨_, rfl, rfl⟩⟩)
      (by simpa using ⟨⟨hid, db.valid.int4 hc (c := .id) rfl hid⟩,
        hown, db.valid.int4 hc (c := .householdId) rfl hown⟩)
  -- only a budget could restrict the deletion
  have hvalid : Valid (db.rows.deleted .category hit) := by
    refine db.valid.deleted fun child r hr fk hfk htarget hrestrict p hp hgone heq => ?_
    have hchild : child = .budget ∧ fk.col = .categoryId := by
      clear heq
      revert fk; cases child <;> decide
    obtain ⟨rfl, hcol⟩ := hchild
    rw [hcol, (condition_ownRow hcond hgone rfl rfl).1] at heq
    exact hbudget ⟨r, hr, heq.symm⟩
  have hframe : Frame H db.rows (rt.answer (.deleteMany .category (ownRow id H)) db).2.rows :=
    discard_call_always.mp h _ _ (.answered db _)
  rw [Runtime.answer_deleteMany hcond hvalid] at hframe
  obtain ⟨k, hk⟩ := db.valid.exists_int hx (c := .householdId) rfl
  have hne : k ≠ H := by
    rintro rfl
    exact hother hk
  -- the transaction would still refer to a category, but that is gone
  have hmem := ((hframe k hne .transaction x).mp ⟨hx, hk⟩).1
  rcases hvalid.refs _ x hmem ⟨.categoryId, .category, "category", "transactions", .setNull⟩
    (by simp [Model.foreignKeys]) with hnull | ⟨p, hp, hpid⟩
  · rw [href] at hnull
    cases hnull
  · rw [Tables.deleted_category, Function.update_of_ne (by decide), Function.update_self,
      List.mem_filter] at hp
    have heq : p = c := db.valid.eq_of_id hp.1 hc (by rw [hpid, href, hid])
    rw [heq, hhit] at hp
    exact absurd hp.2 (by decide)

/-- **Tenant write isolation.** An operation of household `H` leaves the rows of all other
households alone, in every run, if and only if it is isolated: it is no `unassignRole` of
another household's assignment, and no deletion of a category that another household's
transactions use and no budget protects. -/
theorem isolated_iff {op : Operation} (hop : op.hasTypes = true) :
    ((op.body rt app H).Always rt.Exec db fun _ db' => Frame H db.rows db'.rows) ↔
      op.Isolated H db.rows := by
  by_cases hconfined : op.confined = true
  · refine iff_of_true ((op.writes hop hconfined).mono fun _ _ hw => hw.frame) ?_
    unfold Operation.Isolated
    split
    · cases hconfined
    · cases hconfined
    · trivial
  · cases op with
    | unassignRole roleId userId => exact ⟨unassignRole_isolated, unassignRole_frame⟩
    | categories op =>
        cases op with
        | remove id => exact ⟨removeCategory_isolated, removeCategory_frame⟩
        | _ => exact absurd rfl hconfined
    | _ => exact absurd rfl hconfined

end

/-! ## On the seed -/

/-- The application with the accounts module's permissions and no bank. -/
def seededApp : App := ⟨accountsRegistry, []⟩

/-- Household 1 renames its first account: an operation of the common kind, which is
isolated whatever the tables hold. -/
theorem isolated_iff_example :
    (((Operation.accounts (.update 1 (.obj [("name", .str "Checking")]))).body Runtime.closed
      seededApp 1).Always Runtime.closed.Exec seeded fun _ db' => Frame 1 seeded.rows db'.rows) ↔
        (Operation.accounts (.update 1 (.obj [("name", .str "Checking")]))).Isolated 1
          seeded.rows :=
  isolated_iff (by decide +kernel)

/-- **A role assignment of another household is deleted**: household 1 takes Charlie, of
household 2, his role there. -/
theorem unassign_crosses : ∃ (op : Operation) (db' : Db) (o : Except ServiceError Unit),
    op.hasTypes = true ∧
      (op.body Runtime.closed seededApp 1).Ends Runtime.closed.Exec seeded o db' ∧
      ¬ Frame 1 seeded.rows db'.rows := by
  refine ⟨.unassignRole 4 3, after Runtime.closed _ seeded, _, rfl, ends_after _ _ _, ?_⟩
  intro hframe
  have hmem := ((hframe 2 (by decide) .userRoleAssignment (Seed.assignment 3 3 4)).mp
    ⟨by simp [seeded, Seed.tables], by decide +kernel⟩).1
  have hgone : (after Runtime.closed ((Operation.unassignRole 4 3).body Runtime.closed seededApp 1)
      seeded).rows .userRoleAssignment |>.all fun a => decide (a .id ≠ .int 3) := by
    decide +kernel
  have hid := List.all_eq_true.mp hgone _ hmem
  exact absurd rfl (of_decide_eq_true hid)

end EngineeringLab.FinanceTracker
