/-
Ownership and request bodies: which bodies leave every row's id and household alone.

The updates of users, accounts, categories, budgets, transactions and households hand the
body to Prisma as it came, and nothing takes `id` or `householdId` out of it, so a body
can move a row (`body_moves_user`). For bodies of scalar fields `ownership_kept` says
exactly when that happens. A body of `PUT /households` with nested writes is safe when at
no depth it sets an `id` or a `householdId` of an existing row, directly or by a relation.

A row is moved when an update sets its `id`, or the column that says whose it is. For the
five tables of a household that column is `householdId`; a household itself has only its
`id`. Both are ordinary fields for Prisma, and the `where` of the request restricts which
row is changed and not what is written into it.

The condition is on the body and the row before the request, not on what the request
returns: the body names neither field, or gives it the value that it has (a number with its
fraction cut off, as Prisma does), or is one that Prisma does not take at all. Then nothing
moves, and if it fails for a body that Prisma takes, something does.
-/
import EngineeringLab.FinanceTracker.Bodies
import EngineeringLab.FinanceTracker.Isolation

set_option autoImplicit false

open Concurrency

namespace EngineeringLab.FinanceTracker

/-- Every row is one that was there, with the same id and household, or is new: `fresh`
are the ids of the rows that the request inserted. -/
def OwnersKept (fresh : Model → Value → Prop) (t t' : Tables) : Prop :=
  ∀ m, ∀ r' ∈ t' m, fresh m (r' .id) ∨
    ∃ r ∈ t m, r .id = r' .id ∧ r .householdId = r' .householdId

/-- The policy under which no UPDATE sets an id or a household. -/
def Policy.owners : Policy where
  makes _ _ := true
  locked _ c := c = .id || c = .householdId

/-- What keeps a body from moving rows. A body of scalar fields gives the row that it is for
no other id and household, or is rejected; nested writes set no id and no household. -/
def UpdateRequest.KeepsOwners (rt : Runtime) (H : ℤ) (t : Tables) (q : UpdateRequest) : Prop :=
  if q.nested then
    Policy.owners.allows (q.data rt).depth true q.model [] (q.data rt) = true
  else
    ∀ row row', Rewrites rt t q.model (q.selection H) (q.data rt) row row' →
      ¬ Reassigns rt q.model (q.data rt) row .id ∧
        ¬ Reassigns rt q.model (q.data rt) row .householdId

namespace OwnersKept

variable {fresh : Model → Value → Prop} {t t' t'' : Tables}

theorem refl (fresh : Model → Value → Prop) (t : Tables) : OwnersKept fresh t t :=
  fun _ r hr => .inr ⟨r, hr, rfl, rfl⟩

theorem trans (h : OwnersKept fresh t t') (h' : OwnersKept fresh t' t'') :
    OwnersKept fresh t t'' := by
  intro m r'' hr''
  rcases h' m r'' hr'' with hfresh | ⟨r', hr', hid', hown'⟩
  · exact .inl hfresh
  · rcases h m r' hr' with hfresh | ⟨r, hr, hid, hown⟩
    · exact .inl (hid' ▸ hfresh)
    · exact .inr ⟨r, hr, hid.trans hid', hown.trans hown'⟩

/-- An update that changes neither ids nor households. -/
theorem of_updated {m : Model} {hit : Row → Bool} {f : Row → Row}
    (hf : ∀ r ∈ t m, hit r = true → f r .id = r .id ∧ f r .householdId = r .householdId) :
    OwnersKept fresh t (t.updated m hit f) := by
  rw [Tables.updated_of_id fun r hr hhit => (hf r hr hhit).1]
  intro m' r' hr'
  by_cases hm : m' = m
  · subst hm
    rw [Function.update_self] at hr'
    obtain ⟨r, hr, rfl⟩ := List.mem_map.mp hr'
    by_cases hhit : hit r = true
    · rw [if_pos hhit]
      exact .inr ⟨r, hr, (hf r hr hhit).1.symm, (hf r hr hhit).2.symm⟩
    · rw [if_neg hhit]
      exact .inr ⟨r, hr, rfl, rfl⟩
  · rw [Function.update_of_ne hm] at hr'
    exact .inr ⟨r', hr', rfl, rfl⟩

/-- A deletion sets references to categories to null, and those are not households. -/
theorem of_deleted {m : Model} {hit : Row → Bool} : OwnersKept fresh t (t.deleted m hit) := by
  intro m' r' hr'
  obtain ⟨r, hr, hcols⟩ := Tables.mem_deleted_col hr'
  exact .inr ⟨r, hr, (hcols .id (by decide)).symm, (hcols .householdId (by decide)).symm⟩

/-- **One statement** that keeps to the policy. -/
theorem of_statement {rt : Runtime} {ev : Prog.Event Db Sql SqlAnswer}
    (hpermits : Policy.owners.Permits rt ev.call) (hev : Effect ev)
    (hfresh : ∀ m row, insertedRow ev = some (m, row) → fresh m (row .id)) :
    OwnersKept fresh ev.before.rows ev.after.rows := by
  cases hev with
  | none h =>
      rw [h]
      exact refl _ _
  | @insert m new row hc hrow h =>
      rw [h.rows]
      intro m' r' hr'
      by_cases hm : m' = m
      · subst hm
        rw [Function.update_self, List.mem_append, List.mem_singleton] at hr'
        rcases hr' with hr' | rfl
        · exact .inr ⟨r', hr', rfl, rfl⟩
        · exact .inl (hfresh _ _ hrow)
      · rw [Function.update_of_ne hm] at hr'
        exact .inr ⟨r', hr', rfl, rfl⟩
  | @update m hit ops hc hops h =>
      rw [h]
      rw [hc] at hpermits
      refine of_updated fun r hr hhit => ?_
      obtain ⟨r', hr'⟩ := hops r hr hhit
      rw [hr', Option.getD_some]
      exact ⟨Policy.applyOps_locked hpermits hr' rfl, Policy.applyOps_locked hpermits hr' rfl⟩
  | delete hc h =>
      rw [h]
      exact of_deleted

end OwnersKept

section

variable {rt : Runtime} {app : App} {H : ℤ} {db : Db} {q : UpdateRequest}

/-- No model refers to itself by a household. -/
theorem Model.householdId_target (m : Model) : ∀ fk ∈ m.foreignKeys, fk.col = .householdId →
    fk.target ≠ m := by
  cases m <;> decide

theorem UpdateRequest.keepsOwners_sufficient (h : q.KeepsOwners rt H db.rows) :
    (q.operation.body rt app H).Always rt.Exec db fun _ db' =>
      OwnersKept (Inserts (rt.statements (q.call rt H) db)) db.rows db'.rows := by
  rw [UpdateRequest.always_iff]
  intro r db' hexec
  unfold UpdateRequest.KeepsOwners at h
  by_cases hq : q.nested = true
  · rw [if_pos hq] at h
    -- only `PUT /households` takes nested writes
    cases q with
    | item route id body => cases hq
    | household body =>
        refine hexec.rel (OwnersKept.refl _) OwnersKept.trans rfl fun ev hev => ?_
        refine OwnersKept.of_statement (Policy.statements_update h ev hev)
          (effect_of_exec (Runtime.of_mem_statements hev)) fun m row hrow => ?_
        exact ⟨ev, hev, row, hrow, rfl⟩
  · rw [if_neg hq] at h
    rcases UpdateRequest.exec_rewrites (by simpa using hq) hexec with
      hrows | ⟨row, row', hrewrites, hrows⟩
    · rw [hrows]
      exact OwnersKept.refl _ _
    · rw [hrows]
      obtain ⟨hid, hown⟩ := h row row' hrewrites
      rw [hrewrites.reassigns_iff, not_not] at hid hown
      refine OwnersKept.of_updated fun r hr hhit => ?_
      have heq : r = row := db.valid.eq_of_id hr hrewrites.mem (by simpa [hasId] using hhit)
      rw [heq]
      exact ⟨hid, hown⟩

theorem UpdateRequest.keepsOwners_necessary (hq : q.nested = false)
    (h : (q.operation.body rt app H).Always rt.Exec db fun _ db' =>
      OwnersKept (Inserts (rt.statements (q.call rt H) db)) db.rows db'.rows) :
    q.KeepsOwners rt H db.rows := by
  unfold UpdateRequest.KeepsOwners
  rw [if_neg (by simp [hq])]
  intro row row' hrewrites
  rw [hrewrites.reassigns_iff, hrewrites.reassigns_iff, not_not, not_not]
  have hkept := UpdateRequest.always_iff.mp h _ _ (.answered db (q.call rt H))
  rw [UpdateRequest.answer_rewrites hrewrites] at hkept
  have hcols : ∀ c, (∀ fk ∈ q.model.foreignKeys, fk.col = c → fk.target ≠ q.model) →
      db.rows.updatedRow q.model (hasId (row .id)) (fun _ => row') q.model row c = row' c := by
    intro c hc
    rw [Tables.updatedRow_of_not_reference hc]
    simp [hasId]
  -- the row after the update, and the row that it was before
  rcases hkept q.model _ (Tables.mem_updatedRow hrewrites.mem) with hfresh | ⟨s, hs, hid, hown⟩
  · exact absurd hfresh (UpdateRequest.not_inserts hq db _ _)
  · rw [Tables.updatedRow_id] at hid
    rw [hcols .householdId (Model.householdId_target _)] at hown
    simp only [hasId, decide_true, and_self, if_true] at hid
    by_cases hsame : row' .id = row .id
    · have heq : s = row := db.valid.eq_of_id hs hrewrites.mem (hid.trans hsame)
      exact ⟨hsame, (heq ▸ hown).symm⟩
    · exact absurd hid (hrewrites.fresh_id hsame s hs)

end

/-! ## On the seed -/

/-- Household 1 makes a category while it changes its name. -/
def renameWithCategory : UpdateRequest :=
  .household (.obj [("name", .str "Household One"),
    ("categories", .obj [("create", .obj [("name", .str "Food")])])])

end EngineeringLab.FinanceTracker
