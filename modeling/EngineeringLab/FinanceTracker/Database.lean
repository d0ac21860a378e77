/-
The Postgres database behind Prisma: tables that satisfy the schema's constraints,
and what one SQL statement does to them.

A statement is carried out on all tables at once and then checked: it commits when
the result satisfies every constraint (`Valid`), otherwise nothing happens and it
fails. `ON UPDATE CASCADE` and `ON DELETE SET NULL` are part of the statement;
`RESTRICT` is the check. The `SERIAL` sequences are outside of transactions: a
failed `INSERT` has used up its number, and an `INSERT` that brings its own id has
used none.

Constraints are those of the schema: the types of the columns, `NOT NULL`, the primary keys
and unique columns, and the foreign keys with their actions. `Valid` is one decidable
proposition about all tables, and a database carries its proof, so that no theorem has to
assume it and no example can start from tables that Postgres would not have.

That a statement which breaks a constraint changes no row is thus a matter of the definition
(`Db.commit`); what is left to prove is what a statement that commits has done. The
sequences are beside the tables, since they survive a failed insert: an id that was used up
is not given again, unless the sequence lags behind ids that were inserted by hand, as the
seed does.
-/
import EngineeringLab.FinanceTracker.Schema
import Mathlib.Data.Fintype.Basic
import Mathlib.Data.List.Find
import Mathlib.Logic.Function.Basic

set_option autoImplicit false

namespace EngineeringLab.FinanceTracker

abbrev Tables := Model → List Row

/-- The constraints of the schema. -/
structure Valid (t : Tables) : Prop where
  typed : ∀ m, ∀ r ∈ t m, ∀ f ∈ m.fields, f.admits (r f.col) = true
  key : ∀ m, (t m).Pairwise fun r s => r .id ≠ s .id
  unique : ∀ m, ∀ u ∈ m.uniques, (t m).Pairwise fun r s => ∃ c ∈ u, r c ≠ s c
  refs : ∀ m, ∀ r ∈ t m, ∀ fk ∈ m.foreignKeys,
    r fk.col = .null ∨ ∃ p ∈ t fk.target, p .id = r fk.col

instance (t : Tables) : Decidable (Valid t) :=
  decidable_of_iff
    ((∀ m, ∀ r ∈ t m, ∀ f ∈ m.fields, f.admits (r f.col) = true) ∧
      (∀ m, (t m).Pairwise fun r s => r .id ≠ s .id) ∧
      (∀ m, ∀ u ∈ m.uniques, (t m).Pairwise fun r s => ∃ c ∈ u, r c ≠ s c) ∧
      (∀ m, ∀ r ∈ t m, ∀ fk ∈ m.foreignKeys,
        r fk.col = .null ∨ ∃ p ∈ t fk.target, p .id = r fk.col))
    ⟨fun ⟨h1, h2, h3, h4⟩ => ⟨h1, h2, h3, h4⟩,
      fun h => ⟨h.typed, h.key, h.unique, h.refs⟩⟩

/-- An integer in a column of integers fits it. -/
theorem Valid.int4 {t : Tables} (h : Valid t) {m : Model} {r : Row} (hr : r ∈ t m) {c : Col}
    (hf : m.field? c = some (.required c .int)) {z : ℤ} (hz : r c = .int z) : int4 z = true := by
  have hadm := h.typed m r hr _ (List.mem_of_find?_eq_some hf)
  simpa [Field.admits, Field.required, hz, Value.hasType] using hadm

/-- A required column of integers has one. -/
theorem Valid.exists_int {t : Tables} (h : Valid t) {m : Model} {r : Row} (hr : r ∈ t m) {c : Col}
    (hf : m.field? c = some (.required c .int)) : ∃ z, r c = .int z := by
  have hadm := h.typed m r hr _ (List.mem_of_find?_eq_some hf)
  cases hv : r c with
  | int z => exact ⟨z, rfl⟩
  | _ => simp [Field.admits, Field.required, hv, Value.hasType] at hadm

/-- A nullable one has one, or is null. -/
theorem Valid.null_or_int {t : Tables} (h : Valid t) {m : Model} {r : Row} (hr : r ∈ t m) {c : Col}
    (hf : .nullable c .int ∈ m.fields) : r c = .null ∨ ∃ z, r c = .int z := by
  have hadm := h.typed m r hr _ hf
  cases hv : r c with
  | null => exact .inl rfl
  | int z => exact .inr ⟨z, rfl⟩
  | _ => simp [Field.admits, Field.nullable, hv, Value.hasType] at hadm

theorem Valid.id_int {t : Tables} (h : Valid t) {m : Model} {r : Row} (hr : r ∈ t m) :
    ∃ z, r .id = .int z ∧ FinanceTracker.int4 z = true := by
  have hf : m.field? .id = some (.required .id .int) := by cases m <;> rfl
  obtain ⟨z, hz⟩ := h.exists_int hr hf
  exact ⟨z, hz, h.int4 hr hf hz⟩

theorem Valid.id_ne_null {t : Tables} (h : Valid t) {m : Model} {r : Row} (hr : r ∈ t m) :
    r .id ≠ .null := by
  obtain ⟨z, hz, -⟩ := h.id_int hr
  rw [hz]
  exact Value.noConfusion

/-- A row is determined by its id. -/
theorem Valid.eq_of_id {t : Tables} (h : Valid t) {m : Model} {r s : Row} (hr : r ∈ t m)
    (hs : s ∈ t m) (hid : r .id = s .id) : r = s := by
  by_contra hne
  have hsymm : Std.Symm fun r s : Row => r .id ≠ s .id := ⟨fun _ _ h => h.symm⟩
  exact (h.key m).forall hr hs hne hid

/-- And by the columns of a unique index. -/
theorem Valid.eq_of_unique {t : Tables} (h : Valid t) {m : Model} {u : List Col}
    (hu : u ∈ m.uniques) {r s : Row} (hr : r ∈ t m) (hs : s ∈ t m) (heq : ∀ c ∈ u, r c = s c) :
    r = s := by
  by_contra hne
  have hsymm : Std.Symm fun r s : Row => ∃ c ∈ u, r c ≠ s c :=
    ⟨fun _ _ ⟨c, hc, h⟩ => ⟨c, hc, h.symm⟩⟩
  obtain ⟨c, hc, hdiffers⟩ := (h.unique m u hu).forall hr hs hne
  exact hdiffers (heq c hc)

/-- The database: tables that satisfy the constraints, and the next value of each
`id` sequence. -/
structure Db where
  rows : Tables
  seq : Model → ℤ
  valid : Valid rows

/-- What a Prisma call may throw: the error codes the schema can lead to, rejected
arguments, and a database that cannot be reached. -/
inductive PrismaError where
  | uniqueConstraint       -- P2002
  | foreignKeyConstraint   -- P2003
  | requiredRelation       -- P2014
  | valueOutOfRange        -- P2020
  | recordNotFound         -- P2025
  | validation
  | unavailable
  deriving DecidableEq, Repr

/-- The tables after a statement, if they satisfy the constraints. -/
def Db.commit (db : Db) (t : Tables) : Except PrismaError Db :=
  if h : Valid t then .ok ⟨t, db.seq, h⟩
  else if ¬ ∀ m, ∀ r ∈ t m, ∀ f ∈ m.fields, f.admits (r f.col) = true then .error .valueOutOfRange
  else if ¬ ((∀ m, (t m).Pairwise fun r s => r .id ≠ s .id) ∧
      ∀ m, ∀ u ∈ m.uniques, (t m).Pairwise fun r s => ∃ c ∈ u, r c ≠ s c) then
    .error .uniqueConstraint
  else .error .foreignKeyConstraint

theorem Db.commit_ok {db db' : Db} {t : Tables} (h : db.commit t = .ok db') :
    db'.rows = t ∧ db'.seq = db.seq := by
  unfold Db.commit at h
  split at h
  · cases h; exact ⟨rfl, rfl⟩
  · split at h
    · cases h
    · split at h <;> cases h

theorem Db.commit_of_valid (db : Db) {t : Tables} (h : Valid t) :
    db.commit t = .ok ⟨t, db.seq, h⟩ := by
  simp [Db.commit, h]

/-! ## INSERT -/

/-- `nextval` of the sequence of `m`. -/
def Db.bump (db : Db) (m : Model) : Db :=
  { db with seq := Function.update db.seq m (db.seq m + 1) }

/-- `INSERT INTO m`. A row without an id takes the next one. -/
def Db.insert (db : Db) (m : Model) (r : Row) : Except PrismaError Row × Db :=
  let r' := if r .id = .null then Function.update r .id (.int (db.seq m)) else r
  let db' := if r .id = .null then db.bump m else db
  match db'.commit (Function.update db.rows m (db.rows m ++ [r'])) with
  | .ok db'' => (.ok r', db'')
  | .error e => (.error e, db')

theorem Db.insert_ok {db : Db} {m : Model} {r r' : Row} (h : (db.insert m r).1 = .ok r') :
    (db.insert m r).2.rows = Function.update db.rows m (db.rows m ++ [r']) ∧
      (∀ c, c ≠ .id → r' c = r c) ∧ (r .id ≠ .null → r' = r) ∧
      (r .id = .null → r' .id = .int (db.seq m)) := by
  unfold Db.insert at h ⊢
  dsimp only at h ⊢
  split at h
  · rename_i db'' hc
    cases h
    refine ⟨(Db.commit_ok hc).1, ?_, ?_, ?_⟩
    · intro c hne
      split
      · exact Function.update_of_ne hne _ _
      · rfl
    · intro hid; rw [if_neg hid]
    · intro hid; rw [if_pos hid, Function.update_self]
  · cases h

theorem Db.insert_error {db : Db} {m : Model} {r : Row} {e : PrismaError}
    (h : (db.insert m r).1 = .error e) : (db.insert m r).2.rows = db.rows := by
  unfold Db.insert at h ⊢
  dsimp only at h ⊢
  split at h
  · cases h
  · dsimp only
    split <;> rfl

/-! ## UPDATE -/

/-- The value of a reference to `m` after the rows of `m` that are `hit` became `f`
of themselves: `ON UPDATE CASCADE` follows a changed id. -/
def Tables.renamed (t : Tables) (m : Model) (hit : Row → Bool) (f : Row → Row) (v : Value) :
    Value :=
  match (t m).find? fun p => p .id = v && hit p with
  | some p => f p .id
  | none => v

/-- `UPDATE m`: the rows that are `hit` become `f` of themselves. -/
def Tables.updated (t : Tables) (m : Model) (hit : Row → Bool) (f : Row → Row) : Tables :=
  fun child =>
    (Function.update t m ((t m).map fun r => if hit r then f r else r) child).map fun r c =>
      if child.foreignKeys.any (fun fk => fk.col = c && fk.target = m) then
        t.renamed m hit f (r c)
      else r c

/-- References to rows that keep their id stay. -/
theorem Tables.renamed_of_kept {t : Tables} {m : Model} {hit : Row → Bool} {f : Row → Row}
    {v : Value} (h : ∀ p ∈ t m, hit p = true → p .id = v → f p .id = p .id) :
    t.renamed m hit f v = v := by
  unfold Tables.renamed
  split
  · rename_i p hp
    have hprop := List.find?_some hp
    simp only [Bool.and_eq_true, decide_eq_true_eq] at hprop
    rw [h p (List.mem_of_find?_eq_some hp) hprop.2 hprop.1, hprop.1]
  · rfl

/-- Unless an id changes, an update touches nothing but the rows it hits. -/
theorem Tables.updated_of_id {t : Tables} {m : Model} {hit : Row → Bool} {f : Row → Row}
    (h : ∀ r ∈ t m, hit r = true → f r .id = r .id) :
    t.updated m hit f = Function.update t m ((t m).map fun r => if hit r then f r else r) := by
  have hsame : ∀ v, t.renamed m hit f v = v := fun v =>
    Tables.renamed_of_kept fun p hp hhit _ => h p hp hhit
  funext child
  simp [Tables.updated, hsame]

/-- What becomes of a row of `child`. -/
def Tables.updatedRow (t : Tables) (m : Model) (hit : Row → Bool) (f : Row → Row) (child : Model)
    (r : Row) : Row := fun c =>
  let v := (if child = m ∧ hit r = true then f r else r) c
  if child.foreignKeys.any (fun fk => fk.col = c && fk.target = m) then t.renamed m hit f v else v

theorem Tables.updated_eq (t : Tables) (m : Model) (hit : Row → Bool) (f : Row → Row)
    (child : Model) : t.updated m hit f child = (t child).map (t.updatedRow m hit f child) := by
  unfold Tables.updated
  by_cases h : child = m
  · subst h
    rw [Function.update_self, List.map_map]
    refine List.map_congr_left fun r _ => funext fun c => ?_
    simp [Tables.updatedRow]
  · rw [Function.update_of_ne h]
    refine List.map_congr_left fun r _ => funext fun c => ?_
    simp [Tables.updatedRow, h]

/-- A column is what the update makes it, unless it refers to a row of `m` whose id changes. -/
theorem Tables.updatedRow_col {t : Tables} {m : Model} {hit : Row → Bool} {f : Row → Row}
    {child : Model} {r : Row} {c : Col} {v : Value}
    (hv : (if child = m ∧ hit r = true then f r else r) c = v)
    (h : ∀ fk ∈ child.foreignKeys, fk.col = c → fk.target = m →
      ∀ p ∈ t m, hit p = true → p .id = v → f p .id = p .id) :
    t.updatedRow m hit f child r c = v := by
  unfold Tables.updatedRow
  dsimp only
  rw [hv]
  by_cases hany : child.foreignKeys.any (fun fk => fk.col = c && fk.target = m) = true
  · rw [if_pos hany]
    simp only [List.any_eq_true, Bool.and_eq_true, decide_eq_true_eq] at hany
    obtain ⟨fk, hfk, hcol, htarget⟩ := hany
    exact Tables.renamed_of_kept (h fk hfk hcol htarget)
  · rw [if_neg hany]

/-- So it stays where the update keeps it in `m`, and the ids that it refers to. -/
theorem Tables.updatedRow_kept {t : Tables} {m : Model} {hit : Row → Bool} {f : Row → Row}
    {child : Model} {r : Row} (hr : r ∈ t child) {c : Col}
    (hf : child = m → ∀ r ∈ t m, hit r = true → f r c = r c)
    (h : ∀ fk ∈ child.foreignKeys, fk.col = c → fk.target = m →
      ∀ p ∈ t m, hit p = true → p .id = r c → f p .id = p .id) :
    t.updatedRow m hit f child r c = r c := by
  refine Tables.updatedRow_col ?_ h
  split
  · rename_i hthis
    obtain ⟨rfl, hhit⟩ := hthis
    exact hf rfl r hr hhit
  · rfl

theorem Tables.mem_updatedRow {t : Tables} {m : Model} {hit : Row → Bool} {f : Row → Row}
    {child : Model} {r : Row} (hr : r ∈ t child) :
    t.updatedRow m hit f child r ∈ t.updated m hit f child := by
  rw [Tables.updated_eq]
  exact List.mem_map_of_mem hr

/-- A column that does not refer to `m` is what the update makes it. -/
theorem Tables.updatedRow_of_not_reference {t : Tables} {m : Model} {hit : Row → Bool}
    {f : Row → Row} {child : Model} {r : Row} {c : Col}
    (hc : ∀ fk ∈ child.foreignKeys, fk.col = c → fk.target ≠ m) :
    t.updatedRow m hit f child r c = (if child = m ∧ hit r = true then f r else r) c :=
  Tables.updatedRow_col rfl fun fk hfk hcol htarget => absurd htarget (hc fk hfk hcol)

theorem Model.id_not_reference (m : Model) : ∀ fk ∈ m.foreignKeys, fk.col ≠ .id := by
  cases m <;> decide

theorem Tables.updatedRow_id {t : Tables} {m : Model} {hit : Row → Bool} {f : Row → Row}
    {child : Model} {r : Row} :
    t.updatedRow m hit f child r .id = (if child = m ∧ hit r = true then f r else r) .id :=
  Tables.updatedRow_of_not_reference fun fk hfk hcol => absurd hcol (child.id_not_reference fk hfk)

/-- A reference to a row that is hit follows its id. -/
theorem Tables.renamed_of_hit {t : Tables} {m : Model} {hit : Row → Bool} {f : Row → Row}
    (h : Valid t) {p : Row} (hp : p ∈ t m) (hhit : hit p = true) :
    t.renamed m hit f (p .id) = f p .id := by
  unfold Tables.renamed
  split
  · rename_i q hq
    have hmem := List.mem_of_find?_eq_some hq
    have hprop := List.find?_some hq
    simp only [Bool.and_eq_true, decide_eq_true_eq] at hprop
    rw [h.eq_of_id hmem hp hprop.1]
  · rename_i hnone
    have hall := List.find?_eq_none.mp hnone p hp
    simp [hhit] at hall

theorem Tables.updated_congr {t : Tables} {m : Model} {hit hit' : Row → Bool} {f f' : Row → Row}
    (h : ∀ r ∈ t m, hit r = hit' r ∧ (hit r = true → f r = f' r)) :
    t.updated m hit f = t.updated m hit' f' := by
  -- an id that changes is followed by the references, so the changed ids must agree too
  have hfind : ∀ v, t.renamed m hit f v = t.renamed m hit' f' v := by
    intro v
    have hsame : (t m).find? (fun p => p .id = v && hit p) =
        (t m).find? fun p => p .id = v && hit' p :=
      List.find?_congr fun p hp => by rw [(h p hp).1]
    unfold Tables.renamed
    rw [← hsame]
    split
    · rename_i p hp
      have hprop := List.find?_some hp
      simp only [Bool.and_eq_true] at hprop
      rw [(h p (List.mem_of_find?_eq_some hp)).2 hprop.2]
    · rfl
  funext child
  rw [Tables.updated_eq, Tables.updated_eq]
  refine List.map_congr_left fun r hr => funext fun c => ?_
  unfold Tables.updatedRow
  simp only [hfind]
  by_cases hm : child = m
  · subst hm
    obtain ⟨hhit, hf⟩ := h r hr
    by_cases hr' : hit r = true
    · simp [hr', hhit ▸ hr', hf hr']
    · have hr'' : ¬ hit' r = true := hhit ▸ hr'
      simp [hr', hr'']
  · simp [hm]

/-- An update that hits nothing does nothing. -/
theorem Tables.updated_none {t : Tables} {m : Model} {hit : Row → Bool} {f : Row → Row}
    (h : ∀ r ∈ t m, hit r = false) : t.updated m hit f = t := by
  rw [Tables.updated_of_id fun r hr hhit => by simp [h r hr] at hhit]
  have hsame : (t m).map (fun r => if hit r then f r else r) = t m := by
    refine (List.map_congr_left fun r hr => ?_).trans (List.map_id _)
    simp [h r hr]
  rw [hsame, Function.update_eq_self]

/-- A table without references to `m` stays, unless it is `m`. -/
theorem Tables.updated_other {t : Tables} {m child : Model} {hit : Row → Bool} {f : Row → Row}
    (hchild : child ≠ m) (hrefs : ∀ fk ∈ child.foreignKeys, fk.target ≠ m) :
    t.updated m hit f child = t child := by
  rw [Tables.updated_eq]
  refine (List.map_congr_left fun r _ => funext fun c => ?_).trans (List.map_id _)
  rw [Tables.updatedRow_of_not_reference fun fk hfk _ => hrefs fk hfk, if_neg fun h => hchild h.1]
  rfl

/-- The columns that the constraints between rows are about. -/
def Model.keyed (m : Model) (c : Col) : Prop :=
  c = .id ∨ (∃ u ∈ m.uniques, c ∈ u) ∨ ∃ fk ∈ m.foreignKeys, fk.col = c

section

variable {t : Tables} {m : Model} {hit : Row → Bool} {f : Row → Row}

/-- An update that leaves those columns alone, as a map on the rows of the model. -/
theorem Tables.updated_of_keyed (hkeyed : ∀ r ∈ t m, hit r = true → ∀ c, m.keyed c → f r c = r c) :
    t.updated m hit f = Function.update t m ((t m).map fun r => if hit r then f r else r) :=
  Tables.updated_of_id fun r hr hhit => hkeyed r hr hhit .id (.inl rfl)

theorem Tables.keyed_kept (hkeyed : ∀ r ∈ t m, hit r = true → ∀ c, m.keyed c → f r c = r c)
    {r : Row} (hr : r ∈ t m) {c : Col} (hc : m.keyed c) :
    (if hit r = true then f r else r) c = r c := by
  split
  · rename_i hhit
    exact hkeyed r hr hhit c hc
  · rfl

/-- Each row is what it was in them. -/
theorem Tables.mem_updated (hkeyed : ∀ r ∈ t m, hit r = true → ∀ c, m.keyed c → f r c = r c)
    {child : Model} {r' : Row} (hr' : r' ∈ t.updated m hit f child) :
    ∃ r ∈ t child, ∀ c, child.keyed c → r' c = r c := by
  rw [Tables.updated_of_keyed hkeyed] at hr'
  by_cases hm : child = m
  · subst hm
    rw [Function.update_self] at hr'
    obtain ⟨r, hr, rfl⟩ := List.mem_map.mp hr'
    exact ⟨r, hr, fun c hc => Tables.keyed_kept hkeyed hr hc⟩
  · rw [Function.update_of_ne hm] at hr'
    exact ⟨r', hr', fun _ _ => rfl⟩

/-- And stays where it was. -/
theorem Tables.mem_updated_of_mem
    (hkeyed : ∀ r ∈ t m, hit r = true → ∀ c, m.keyed c → f r c = r c)
    {child : Model} {r : Row} (hr : r ∈ t child) :
    ∃ r' ∈ t.updated m hit f child, ∀ c, child.keyed c → r' c = r c := by
  rw [Tables.updated_of_keyed hkeyed]
  by_cases hm : child = m
  · subst hm
    rw [Function.update_self]
    exact ⟨_, List.mem_map_of_mem hr, fun c hc => Tables.keyed_kept hkeyed hr hc⟩
  · rw [Function.update_of_ne hm]
    exact ⟨r, hr, fun _ _ => rfl⟩

/-- Rows that differ in some of them still do. -/
theorem Tables.pairwise_updated
    (hkeyed : ∀ r ∈ t m, hit r = true → ∀ c, m.keyed c → f r c = r c)
    {child : Model} {cols : List Col} (hcols : ∀ c ∈ cols, child.keyed c)
    (hall : (t child).Pairwise fun r s => ∃ c ∈ cols, r c ≠ s c) :
    (t.updated m hit f child).Pairwise fun r s => ∃ c ∈ cols, r c ≠ s c := by
  rw [Tables.updated_of_keyed hkeyed]
  by_cases hm : child = m
  · subst hm
    rw [Function.update_self, List.pairwise_map]
    refine hall.imp_of_mem fun {r s} hr hs ⟨c, hc, hne⟩ => ⟨c, hc, ?_⟩
    rwa [Tables.keyed_kept hkeyed hr (hcols c hc), Tables.keyed_kept hkeyed hs (hcols c hc)]
  · rwa [Function.update_of_ne hm]

/-- Values that fit their columns can be given to all the others. -/
theorem Valid.updated (h : Valid t)
    (htyped : ∀ r ∈ t m, hit r = true → ∀ fd ∈ m.fields, fd.admits (f r fd.col) = true)
    (hkeyed : ∀ r ∈ t m, hit r = true → ∀ c, m.keyed c → f r c = r c) :
    Valid (t.updated m hit f) := by
  refine ⟨fun child r' hr' fd hfd => ?_, fun child => ?_, fun child u hu => ?_,
    fun child r' hr' fk hfk => ?_⟩
  · rw [Tables.updated_of_keyed hkeyed] at hr'
    by_cases hm : child = m
    · subst hm
      rw [Function.update_self] at hr'
      obtain ⟨r, hr, rfl⟩ := List.mem_map.mp hr'
      split
      · rename_i hhit
        exact htyped r hr hhit fd hfd
      · exact h.typed child r hr fd hfd
    · rw [Function.update_of_ne hm] at hr'
      exact h.typed child r' hr' fd hfd
  · -- no key changes, so what was distinct is distinct
    have hids := Tables.pairwise_updated hkeyed (fun c hc => .inl (List.mem_singleton.mp hc))
      (by simpa using h.key child)
    simpa using hids
  · exact Tables.pairwise_updated hkeyed (fun c hc => .inr (.inl ⟨u, hu, hc⟩))
      (h.unique child u hu)
  · -- the row that is referred to may itself be updated, and keeps its id
    obtain ⟨r, hr, hsame⟩ := Tables.mem_updated hkeyed hr'
    rw [hsame fk.col (.inr (.inr ⟨fk, hfk, rfl⟩))]
    refine (h.refs child r hr fk hfk).imp_right fun ⟨p, hp, hid⟩ => ?_
    obtain ⟨p', hp', hkept⟩ := Tables.mem_updated_of_mem hkeyed hp
    exact ⟨p', hp', (hkept .id (.inl rfl)).trans hid⟩

end

def Db.update (db : Db) (m : Model) (hit : Row → Bool) (f : Row → Row) : Except PrismaError Db :=
  db.commit (db.rows.updated m hit f)

theorem Db.update_ok {db db' : Db} {m : Model} {hit : Row → Bool} {f : Row → Row}
    (h : db.update m hit f = .ok db') :
    db'.rows = db.rows.updated m hit f ∧ db'.seq = db.seq := Db.commit_ok h

/-! ## DELETE -/

/-- Does a column refer to a row of `m` that is `hit`, with `ON DELETE SET NULL`? -/
def Tables.orphaned (t : Tables) (m : Model) (hit : Row → Bool) (child : Model) (c : Col)
    (v : Value) : Bool :=
  child.foreignKeys.any (fun fk => fk.col = c && fk.target = m && fk.onDelete = .setNull) &&
    (t m).any fun p => p .id = v && hit p

/-- `DELETE FROM m`: the rows that are `hit` go, and `SET NULL` references to them. -/
def Tables.deleted (t : Tables) (m : Model) (hit : Row → Bool) : Tables :=
  fun child =>
    (Function.update t m ((t m).filter fun r => !hit r) child).map fun r c =>
      if t.orphaned m hit child c (r c) then .null else r c

theorem Tables.subset_appended {t : Tables} {m : Model} {rows : List Row} (m' : Model) :
    t m' ⊆ Function.update t m (t m ++ rows) m' := by
  intro row hrow
  by_cases hm : m' = m
  · subst hm
    rw [Function.update_self]
    exact List.mem_append_left _ hrow
  · rwa [Function.update_of_ne hm]

theorem Tables.filtered_subset {t : Tables} {m : Model} {keep : Row → Bool} (m' : Model) :
    Function.update t m ((t m).filter keep) m' ⊆ t m' := by
  intro row hrow
  by_cases hm : m' = m
  · subst hm
    rw [Function.update_self] at hrow
    exact (List.mem_filter.mp hrow).1
  · rwa [Function.update_of_ne hm] at hrow

/-- Only the deletion of a category sets anything to null. -/
theorem Tables.deleted_of_ne {t : Tables} {m : Model} {hit : Row → Bool} (h : m ≠ .category) :
    t.deleted m hit = Function.update t m ((t m).filter fun r => !hit r) := by
  have hnone : ∀ child c v, t.orphaned m hit child c v = false := by
    intro child c v
    have hany : (child.foreignKeys.any fun fk =>
        fk.col = c && fk.target = m && fk.onDelete = .setNull) = false := by
      cases child <;> cases m <;> simp_all [Model.foreignKeys]
    simp [Tables.orphaned, hany]
  funext child
  simp [Tables.deleted, hnone]

/-- The one reference that is set to null. -/
theorem Model.setNull_category (m : Model) : ∀ fk ∈ m.foreignKeys, fk.onDelete = .setNull →
    m = .transaction ∧ fk.col = .categoryId := by
  cases m <;> decide

/-- Only columns that may be empty, and that no index covers, are ever set to null. -/
theorem Model.setNull_optional (m : Model) : ∀ fk ∈ m.foreignKeys, fk.onDelete = .setNull →
    (∀ f ∈ m.fields, f.col = fk.col → f.optional = true) ∧ fk.col ≠ .id ∧
      ∀ u ∈ m.uniques, fk.col ∉ u := by
  cases m <;> decide

theorem Tables.orphaned_iff {t : Tables} {m child : Model} {hit : Row → Bool} {c : Col}
    {v : Value} :
    t.orphaned m hit child c v = true ↔
      (∃ fk ∈ child.foreignKeys, fk.col = c ∧ fk.target = m ∧ fk.onDelete = .setNull) ∧
        ∃ p ∈ t m, p .id = v ∧ hit p = true := by
  simp only [Tables.orphaned, Bool.and_eq_true, List.any_eq_true, decide_eq_true_eq, and_assoc]

theorem Tables.mem_deleted {t : Tables} {m child : Model} {hit : Row → Bool} {r' : Row} :
    r' ∈ t.deleted m hit child ↔ ∃ r ∈ t child, (child = m → hit r = false) ∧
      r' = fun c => if t.orphaned m hit child c (r c) then .null else r c := by
  simp only [Tables.deleted, List.mem_map]
  by_cases h : child = m
  · subst h
    simp only [Function.update_self, List.mem_filter, Bool.not_eq_true', forall_const]
    exact ⟨fun ⟨r, ⟨hr, hkeep⟩, heq⟩ => ⟨r, hr, hkeep, heq.symm⟩,
      fun ⟨r, hr, hkeep, heq⟩ => ⟨r, ⟨hr, hkeep⟩, heq.symm⟩⟩
  · simp only [Function.update_of_ne h, h, false_implies, true_and]
    exact ⟨fun ⟨r, hr, heq⟩ => ⟨r, hr, heq.symm⟩, fun ⟨r, hr, heq⟩ => ⟨r, hr, heq.symm⟩⟩

/-- A row after a deletion is a row before it, up to its category. -/
theorem Tables.mem_deleted_col {t : Tables} {m child : Model} {hit : Row → Bool} {r' : Row}
    (h : r' ∈ t.deleted m hit child) : ∃ r ∈ t child, ∀ c, c ≠ .categoryId → r' c = r c := by
  obtain ⟨r, hr, -, rfl⟩ := Tables.mem_deleted.mp h
  refine ⟨r, hr, fun c hc => if_neg fun horphan => ?_⟩
  obtain ⟨⟨fk, hfk, hcol, -, hnull⟩, -⟩ := Tables.orphaned_iff.mp horphan
  exact hc (hcol ▸ (child.setNull_category fk hfk hnull).2)

/-- A property of pairs of rows that does not depend on the columns set to null stays. -/
theorem Tables.pairwise_deleted {t : Tables} {m child : Model} {hit : Row → Bool}
    {P : Row → Row → Prop} (h : (t child).Pairwise P)
    (hP : ∀ r s, P r s → P (fun c => if t.orphaned m hit child c (r c) then .null else r c)
      (fun c => if t.orphaned m hit child c (s c) then .null else s c)) :
    (t.deleted m hit child).Pairwise P := by
  unfold Tables.deleted
  refine List.Pairwise.map _ hP ?_
  by_cases hm : child = m
  · subst hm
    rw [Function.update_self]
    exact h.filter _
  · rwa [Function.update_of_ne hm]

/-- A column that no reference with `SET NULL` is in is never set to null. -/
theorem Tables.not_orphaned {t : Tables} {m child : Model} {hit : Row → Bool} {c : Col}
    (hc : ∀ fk ∈ child.foreignKeys, fk.onDelete = .setNull → fk.col ≠ c) (v : Value) :
    t.orphaned m hit child c v = false := by
  by_contra horphan
  obtain ⟨⟨fk, hfk, hcol, -, hnull⟩, -⟩ := Tables.orphaned_iff.mp (by simpa using horphan)
  exact hc fk hfk hnull hcol

/-- A deletion goes through when nothing that restricts it refers to what it deletes. -/
theorem Valid.deleted {t : Tables} (h : Valid t) {m : Model} {hit : Row → Bool}
    (hrefs : ∀ child, ∀ r ∈ t child, ∀ fk ∈ child.foreignKeys, fk.target = m →
      fk.onDelete = .restrict → ∀ p ∈ t m, hit p = true → p .id ≠ r fk.col) :
    Valid (t.deleted m hit) := by
  -- an id, or a column of an index, is never set to null
  have hid : ∀ child v, t.orphaned m hit child .id v = false := fun child =>
    Tables.not_orphaned fun fk hfk hnull => (child.setNull_optional fk hfk hnull).2.1
  have hunique : ∀ (child : Model), ∀ u ∈ child.uniques, ∀ c ∈ u, ∀ v,
      t.orphaned m hit child c v = false := fun child u hu c hc =>
    Tables.not_orphaned fun fk hfk hnull hcol =>
      (child.setNull_optional fk hfk hnull).2.2 u hu (hcol ▸ hc)
  refine ⟨fun child r' hr' f hf => ?_, fun child => ?_, fun child u hu => ?_,
    fun child r' hr' fk hfk => ?_⟩
  · obtain ⟨r, hr, -, rfl⟩ := Tables.mem_deleted.mp hr'
    by_cases horphan : t.orphaned m hit child f.col (r f.col) = true
    · obtain ⟨⟨fk, hfk, hcol, -, hnull⟩, -⟩ := Tables.orphaned_iff.mp horphan
      have hopt := (child.setNull_optional fk hfk hnull).1 f hf hcol.symm
      simp [horphan, Field.admits, hopt]
    · simpa [horphan] using h.typed child r hr f hf
  · refine Tables.pairwise_deleted (h.key child) fun r s hne => ?_
    simpa [hid] using hne
  · refine Tables.pairwise_deleted (h.unique child u hu) fun r s ⟨c, hc, hne⟩ => ⟨c, hc, ?_⟩
    simpa [hunique child u hu c hc] using hne
  · obtain ⟨r, hr, -, rfl⟩ := Tables.mem_deleted.mp hr'
    by_cases horphan : t.orphaned m hit child fk.col (r fk.col) = true
    · exact .inl (by simp [horphan])
    · rcases h.refs child r hr fk hfk with hnull | ⟨p, hp, hpid⟩
      · exact .inl (by simp [hnull])
      · refine .inr ⟨_, Tables.mem_deleted.mpr ⟨p, hp, fun htarget => ?_, rfl⟩, ?_⟩
        · -- the referenced row is not deleted: that is restricted, or the reference is set to null
          by_contra hkeep
          have hhit : hit p = true := by simpa using hkeep
          rw [htarget] at hp
          cases hdelete : fk.onDelete with
          | restrict => exact hrefs child r hr fk hfk htarget hdelete p hp hhit hpid
          | setNull =>
              exact horphan (Tables.orphaned_iff.mpr
                ⟨⟨fk, hfk, rfl, htarget, hdelete⟩, p, hp, hpid, hhit⟩)
        · simp [hid, horphan, hpid]

def Db.delete (db : Db) (m : Model) (hit : Row → Bool) : Except PrismaError Db :=
  db.commit (db.rows.deleted m hit)

theorem Db.delete_ok {db db' : Db} {m : Model} {hit : Row → Bool} (h : db.delete m hit = .ok db') :
    db'.rows = db.rows.deleted m hit ∧ db'.seq = db.seq := Db.commit_ok h

/-! ## The seed

What `prisma/seed.ts` leaves in an empty database. It gives households, users and
accounts their ids itself, so their sequences still start at 1. -/

/-- A row from its columns. -/
def Row.of (cols : List (Col × Value)) : Row := fun c => (cols.lookup c).getD .null

namespace Seed

def allPermissions : List String :=
  ["accounts:create", "accounts:read", "accounts:edit", "accounts:delete",
    "users:create", "users:read", "users:edit", "users:delete",
    "households:create", "households:read", "households:edit", "households:delete",
    "transactions:create", "transactions:read", "transactions:edit", "transactions:delete",
    "categories:create", "categories:read", "categories:edit", "categories:delete",
    "budgets:create", "budgets:read", "budgets:edit", "budgets:delete",
    "bank-sync:execute", "bank-sync:read",
    "roles:create", "roles:read", "roles:edit", "roles:delete", "roles:assign", "roles:unassign"]

def memberPermissions : List String :=
  ["accounts:create", "accounts:read", "accounts:edit", "users:read", "households:read",
    "transactions:create", "transactions:read", "transactions:edit", "categories:read",
    "budgets:create", "budgets:read", "budgets:edit", "bank-sync:execute", "bank-sync:read",
    "roles:create", "roles:read", "roles:assign"]

def viewerPermissions : List String :=
  ["accounts:read", "users:read", "households:read", "transactions:read", "categories:read",
    "budgets:read", "bank-sync:read", "roles:read"]

def user (id : ℤ) (email name : String) (householdId : ℤ) : Row :=
  .of [(.id, .int id), (.email, .string email), (.name, .string name),
    (.householdId, .int householdId)]

def role (id : ℤ) (name : String) (householdId : ℤ) (permissions : List String) : Row :=
  .of [(.id, .int id), (.name, .string name), (.householdId, .int householdId),
    (.permissions, .stringList permissions)]

def assignment (id userId roleId : ℤ) : Row :=
  .of [(.id, .int id), (.userId, .int userId), (.roleId, .int roleId)]

def account (id : ℤ) (name bankName : String) (balance : ℚ) (householdId : ℤ) : Row :=
  .of [(.id, .int id), (.name, .string name), (.bankName, .string bankName),
    (.balance, .decimal balance), (.householdId, .int householdId)]

def flag (id householdId : ℤ) (moduleName : String) (isEnabled : Bool) : Row :=
  .of [(.id, .int id), (.householdId, .int householdId), (.moduleName, .string moduleName),
    (.isEnabled, .boolean isEnabled)]

def tables : Tables
  | .household => [.of [(.id, .int 1), (.name, .string "Household A")],
      .of [(.id, .int 2), (.name, .string "Household B")]]
  | .user => [user 1 "owner@household-a.com" "Alice Owner" 1,
      user 2 "member@household-a.com" "Bob Member" 1,
      user 3 "owner@household-b.com" "Charlie Owner" 2]
  | .customRole => [role 1 "Owner" 1 allPermissions, role 2 "Member" 1 memberPermissions,
      role 3 "Viewer" 1 viewerPermissions, role 4 "Owner" 2 allPermissions]
  | .userRoleAssignment => [assignment 1 1 1, assignment 2 2 2, assignment 3 3 4]
  | .featureFlag => [flag 1 1 "budgets" true, flag 2 2 "budgets" false, flag 3 1 "bank-sync" true,
      flag 4 2 "bank-sync" false]
  | .account => [account 1 "Chase Checking" "chase" (17003 / 4) 1,
      account 2 "Wells Fargo Savings" "wells_fargo" 8450 1,
      account 3 "Chase Business" "chase" 15000 2]
  | _ => []

end Seed

def seeded : Db where
  rows := Seed.tables
  seq
    | .customRole => 5
    | .userRoleAssignment => 4
    | .featureFlag => 5
    | _ => 1
  valid := by decide +kernel

end EngineeringLab.FinanceTracker
