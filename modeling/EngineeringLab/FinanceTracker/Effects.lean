/-
What the calls do, as rules that the proofs about the services use.

Reads change nothing and answer rows of the table that the `where` selects. A write
either fails and leaves every row as it was, or is the one statement that its `data`
describes, as long as the `data` has scalar fields only (`Js.hasOnly` of
`Model.scalarKeys`). The sequences only go up.

The rules come in three layers. About one value: what `Runtime.read` makes of a JavaScript
value for a column, and what the columns of a new row then hold (`newRow_number`,
`createValue_number`). About one statement: which rows an `UPDATE` or `DELETE` selects and
what it makes of them. About one call: that it fails without effect or carries its statement
out (`Created`, `Updated` and their siblings in the modules about services).

A service's proof then reads like the service: one rule for each call, in the order of the
calls. None of the rules is about a particular service or column, so that a service that
changes needs other rules, and not other proofs of these.
-/
import EngineeringLab.FinanceTracker.Client
import Mathlib.Data.List.ReduceOption

set_option autoImplicit false

open Concurrency

namespace EngineeringLab.FinanceTracker

/-! ## Fields of `data` -/

/-- The scalar fields of a model, as the client writes them. -/
def Model.scalarKeys (m : Model) : List String := m.fields.map (·.col.key)

theorem Js.get_of_hasOnly {data : Js} {keys : List String} {key : String}
    (h : data.hasOnly keys = true) (hkey : key ∉ keys) : data.get key = .undefined := by
  cases data with
  | obj fields =>
      have hnone : fields.lookup key = none := by
        rw [List.lookup_eq_none_iff]
        intro field hmem
        have hin : keys.contains field.1 = true := List.all_eq_true.mp h field hmem
        have hne : key ≠ field.1 := by
          rintro rfl
          exact hkey (by simpa using hin)
        simpa using hne
      simp [Js.get, hnone]
  | _ => cases h

theorem Js.hasOnly_mono {data : Js} {keys keys' : List String} (h : data.hasOnly keys = true)
    (hsub : keys ⊆ keys') : data.hasOnly keys' = true := by
  cases data with
  | obj fields =>
      simp only [Js.hasOnly, List.all_eq_true, List.contains_iff_mem] at h ⊢
      exact fun field hmem => hsub (h field hmem)
  | _ => cases h

theorem Js.hasOnly_assign {data : Js} {keys : List String} {key : String} {v : Js}
    (h : (Js.obj data.entries).hasOnly keys = true) (hkey : key ∈ keys) :
    (data.assign key v).hasOnly keys = true := by
  simp only [Js.hasOnly, Js.assign, List.all_eq_true, List.contains_iff_mem, List.mem_append,
    List.mem_filter, List.mem_singleton] at h ⊢
  rintro field (⟨hmem, -⟩ | rfl)
  · exact h field hmem
  · exact hkey

theorem Js.eq_obj_of_hasOnly {data : Js} {keys : List String} (h : data.hasOnly keys = true) :
    Js.obj data.entries = data := by
  cases data with
  | obj fields => rfl
  | _ => cases h

/-- No relation field is called like a scalar field. -/
theorem Model.relation_not_scalar (m : Model) :
    (∀ fk ∈ m.foreignKeys, fk.field ∉ m.scalarKeys) ∧
      ∀ child ∈ m.children, child.2.back ∉ m.scalarKeys := by
  cases m <;> decide

theorem Model.accepts_scalars {m : Model} {data : Js} (h : data.hasOnly m.scalarKeys = true) :
    m.accepts [] data = true := by
  have hkeys : data.hasOnly m.dataKeys = true := by
    refine Js.hasOnly_mono h fun k hk => ?_
    simp only [Model.dataKeys, List.mem_append]
    exact .inl (.inl hk)
  have hmix : m.mixes [] data = false := by
    have hnone : (m.foreignKeys.map (·.field)).any
        (fun k => !([] : List String).contains k && (data.get k).isDefined) = false := by
      simp only [List.any_eq_false, List.mem_map]
      rintro k ⟨fk, hfk, rfl⟩
      rw [Js.get_of_hasOnly h (m.relation_not_scalar.1 fk hfk)]
      simp [Js.isDefined]
    simp only [Model.mixes, hnone, Bool.and_false]
  simp [Model.accepts, hkeys, hmix]

/-! ## Columns -/

section

variable {rt : Runtime} {m : Model}

theorem Runtime.read_int (rt : Runtime) (z : ℤ) :
    rt.read .int (Js.int z) = if int4 z = true then some (.int z) else none := by
  simp [Runtime.read, Js.int]

/-- A column of a new row that the write around it does not give is what `data` gives. -/
theorem Runtime.newRow_given {links : List (Col × Value)} {data : Js} {r : Row}
    (h : rt.newRow m links data = some r) {c : Col} {f : Field} (hf : m.field? c = some f)
    (hc : links.lookup c = none) : rt.createValue f (data.get c.key) = some (r c) := by
  unfold Runtime.newRow at h
  dsimp only at h
  split at h
  · rename_i hall
    have hvalue := hall c
    cases h
    simp only [hf, hc, Option.orElse_eq_or, Option.none_or] at hvalue ⊢
    rw [Option.eq_some_of_isSome hvalue, Option.getD_some]
  · cases h

theorem Runtime.newRow_value {data : Js} {r : Row} (h : rt.newRow m [] data = some r) {c : Col}
    {f : Field} (hf : m.field? c = some f) : rt.createValue f (data.get c.key) = some (r c) :=
  Runtime.newRow_given h hf rfl

theorem Runtime.read_int_eq {js : Js} {v : Value} (h : rt.read .int js = some v) :
    ∃ z, js.int? = some z ∧ v = .int z := by
  cases js with
  | num q =>
      simp only [Runtime.read] at h
      split at h
      · exact ⟨q.num.tdiv q.den, rfl, (Option.some.inj h).symm⟩
      · cases h
  | _ => cases h

theorem Runtime.createValue_number {f : Field} (ht : f.type = .int) {js : Js} {z : ℤ}
    (hz : js.int? = some z) {v : Value} (h : rt.createValue f js = some v) : v = .int z := by
  cases js with
  | num q =>
      simp only [Runtime.createValue, Runtime.readNullable, ht, Option.map_eq_some_iff] at h
      obtain ⟨v', hread, rfl⟩ := h
      obtain ⟨z', hz', rfl⟩ := Runtime.read_int_eq hread
      rw [Option.some.inj (hz.symm.trans hz')]
      rfl
  | _ => cases hz

theorem Runtime.read_decimal_eq {js : Js} {v : Value} (h : rt.read .decimal js = some v) :
    ∃ q, v = .decimal q := by
  cases js with
  | num q => exact ⟨q, (Option.some.inj h).symm⟩
  | str s =>
      obtain ⟨q, -, rfl⟩ := Option.map_eq_some_iff.mp h
      exact ⟨q, rfl⟩
  | _ => cases h

/-- A reference in a new row is what `data` gives, or nothing. -/
theorem Runtime.createValue_reference {f : Field} (ht : f.type = .int) (hid : f.col ≠ .id)
    (hdefault : f.default = none) {js : Js} {v : Value} (h : rt.createValue f js = some v) :
    v = .null ∨ ∃ z, js.int? = some z ∧ v = .int z := by
  unfold Runtime.createValue at h
  split at h
  · rw [if_neg hid, hdefault] at h
    split at h
    · exact .inl (Option.some.inj h).symm
    · cases h
  · rw [ht] at h
    cases h
  · unfold Runtime.readNullable at h
    split at h
    · split at h
      · exact .inl (Option.some.inj h).symm
      · cases h
    · rw [ht] at h
      obtain ⟨v', hread, hstored⟩ := Option.map_eq_some_iff.mp h
      obtain ⟨z, hz, rfl⟩ := Runtime.read_int_eq hread
      exact .inr ⟨z, hz, hstored.symm⟩

/-- A column of a new row that `data` gives a number for. -/
theorem Runtime.newRow_number {data : Js} {r : Row} (h : rt.newRow m [] data = some r) {c : Col}
    {f : Field} (hf : m.field? c = some f) (ht : f.type = .int) {z : ℤ}
    (hz : (data.get c.key).int? = some z) : r c = .int z :=
  Runtime.createValue_number ht hz (Runtime.newRow_value h hf)

theorem Runtime.newRow_int {data : Js} {r : Row} (h : rt.newRow m [] data = some r) {c : Col}
    {f : Field} (hf : m.field? c = some f) (ht : f.type = .int) {z : ℤ}
    (hz : data.get c.key = Js.int z) : r c = .int z :=
  Runtime.newRow_number h hf ht (by rw [hz, Js.int?_int])

/-- A row that is made without an id takes the next one of the sequence. -/
theorem Runtime.newRow_id {data : Js} {r : Row} (h : rt.newRow m [] data = some r)
    (hid : data.get "id" = .undefined) : r .id = .null := by
  have hf : m.field? .id = some (.required .id .int) := by cases m <;> rfl
  have hvalue := Runtime.newRow_value h hf
  simp only [Col.key, hid, Runtime.createValue, Field.required, if_true] at hvalue
  exact (Option.some.inj hvalue).symm

theorem applyOps_of_not_mem {ops : List (Col × ScalarOp)} {r r' : Row}
    (h : applyOps ops r = some r') {c : Col} (hc : ∀ op ∈ ops, op.1 ≠ c) : r' c = r c := by
  induction ops generalizing r with
  | nil => cases h; rfl
  | cons op ops ih =>
      obtain ⟨c', sop⟩ := op
      simp only [applyOps, Option.bind_eq_some_iff] at h
      obtain ⟨v, -, h⟩ := h
      rw [ih h fun op hop => hc op (List.mem_cons_of_mem _ hop)]
      exact Function.update_of_ne (hc (c', sop) (by simp)).symm _ _

/-- What the operation on a column does, if there is one. -/
def changes (op : Option ScalarOp) (v v' : Value) : Prop :=
  match op with
  | none => v' = v
  | some op => op.apply v = some v'

/-- The operations that the fields of `data` stand for, for a list of fields. -/
def Runtime.fieldOps (rt : Runtime) (data : Js) (fields : List Field) :
    Option (List (Option (Col × ScalarOp))) :=
  fields.mapM fun f => (rt.readOp f (data.get f.col.key)).map fun op => op.map (f.col, ·)

theorem Runtime.fieldOps_cons {data : Js} {f : Field} {fields : List Field}
    {l : List (Option (Col × ScalarOp))} (h : rt.fieldOps data (f :: fields) = some l) :
    ∃ op l', rt.readOp f (data.get f.col.key) = some op ∧ rt.fieldOps data fields = some l' ∧
      l = op.map (f.col, ·) :: l' := by
  simp only [Runtime.fieldOps, List.mapM_cons, Option.bind_eq_bind, Option.bind_eq_some_iff,
    Option.pure_def, Option.some.injEq] at h
  obtain ⟨o, ho, l', hl', rfl⟩ := h
  obtain ⟨op, hop, rfl⟩ := Option.map_eq_some_iff.mp ho
  exact ⟨op, l', hop, hl', rfl⟩

/-- An operation comes from a field that `data` has. -/
theorem Runtime.fieldOps_defined {data : Js} {fields : List Field}
    {l : List (Option (Col × ScalarOp))} (h : rt.fieldOps data fields = some l) :
    ∀ op ∈ l.reduceOption, ∃ f ∈ fields, op.1 = f.col ∧ (data.get f.col.key).isDefined = true := by
  induction fields generalizing l with
  | nil =>
      simp only [Runtime.fieldOps, List.mapM_nil, Option.pure_def, Option.some.injEq] at h
      subst h
      simp
  | cons f fields ih =>
      obtain ⟨o, l', ho, hl', rfl⟩ := Runtime.fieldOps_cons h
      intro op hop
      rw [List.reduceOption_mem_iff] at hop
      rcases List.mem_cons.mp hop with hop | hop
      · obtain ⟨sop, rfl, rfl⟩ := Option.map_eq_some_iff.mp hop.symm
        refine ⟨f, by simp, rfl, ?_⟩
        cases hget : data.get f.col.key with
        | undefined =>
            rw [hget] at ho
            cases ho
        | _ => rfl
      · obtain ⟨g, hg, hop⟩ := ih hl' op (List.reduceOption_mem_iff.mpr hop)
        exact ⟨g, List.mem_cons_of_mem _ hg, hop⟩

theorem Runtime.fieldOps_cols {data : Js} {fields : List Field}
    {l : List (Option (Col × ScalarOp))} (h : rt.fieldOps data fields = some l) :
    ∀ op ∈ l.reduceOption, op.1 ∈ fields.map (·.col) := by
  intro op hop
  obtain ⟨f, hf, hcol, -⟩ := Runtime.fieldOps_defined h op hop
  exact hcol ▸ List.mem_map_of_mem hf

/-- Each field's operation is applied once, to the column as it was. The induction is on the
fields, whose columns are distinct, so no operation meets the result of another. -/
theorem Runtime.fieldOps_apply {data : Js} {fields : List Field}
    {l : List (Option (Col × ScalarOp))} (h : rt.fieldOps data fields = some l) {r r' : Row}
    (ha : applyOps l.reduceOption r = some r') (hnd : (fields.map (·.col)).Nodup) {f : Field}
    (hf : f ∈ fields) :
    ∃ op, rt.readOp f (data.get f.col.key) = some op ∧ changes op (r f.col) (r' f.col) := by
  induction fields generalizing l r with
  | nil => cases hf
  | cons g fields ih =>
      obtain ⟨o, l', ho, hl', rfl⟩ := Runtime.fieldOps_cons h
      obtain ⟨hg, hnd⟩ := List.nodup_cons.mp hnd
      -- No later field writes to this column.
      have hcols : ∀ op ∈ l'.reduceOption, op.1 ≠ g.col := by
        intro op hop heq
        have hmem := Runtime.fieldOps_cols hl' op hop
        rw [heq] at hmem
        exact hg hmem
      cases o with
      | none =>
          simp only [Option.map_none, List.reduceOption_cons_of_none] at ha
          rcases List.mem_cons.mp hf with rfl | hf
          · exact ⟨none, ho, applyOps_of_not_mem ha hcols⟩
          · exact ih hl' ha hnd hf
      | some sop =>
          simp only [Option.map_some, List.reduceOption_cons_of_some, applyOps,
            Option.bind_eq_some_iff] at ha
          obtain ⟨v, hv, ha⟩ := ha
          rcases List.mem_cons.mp hf with rfl | hf
          · refine ⟨some sop, ho, ?_⟩
            rw [applyOps_of_not_mem ha hcols, Function.update_self]
            exact hv
          · obtain ⟨op, hop, hch⟩ := ih hl' ha hnd hf
            have hne : f.col ≠ g.col := by
              intro heq
              have hmem : f.col ∈ fields.map (·.col) := List.mem_map_of_mem hf
              rw [heq] at hmem
              exact hg hmem
            rw [Function.update_of_ne hne] at hch
            exact ⟨op, hop, hch⟩

theorem Model.fields_nodup (m : Model) : (m.fields.map (·.col)).Nodup := by
  cases m <;> decide

theorem Runtime.ops_defined {data : Js} {ops : List (Col × ScalarOp)}
    (h : rt.ops m data = some ops) :
    ∀ op ∈ ops, ∃ f ∈ m.fields, op.1 = f.col ∧ (data.get f.col.key).isDefined = true := by
  obtain ⟨l, hl, rfl⟩ := Option.map_eq_some_iff.mp h
  exact Runtime.fieldOps_defined hl

/-- What an update by `data` does to a column of the model. -/
theorem Runtime.ops_apply {data : Js} {ops : List (Col × ScalarOp)} (h : rt.ops m data = some ops)
    {r r' : Row} (ha : applyOps ops r = some r') {c : Col} {f : Field}
    (hf : m.field? c = some f) :
    ∃ op, rt.readOp f (data.get c.key) = some op ∧ changes op (r c) (r' c) := by
  obtain ⟨l, hl, rfl⟩ := Option.map_eq_some_iff.mp h
  have hcol : f.col = c := by simpa using List.find?_some hf
  rw [← hcol]
  exact Runtime.fieldOps_apply hl ha m.fields_nodup (List.mem_of_find?_eq_some hf)

/-- An update does nothing to a column that the model does not have. -/
theorem Runtime.ops_of_no_field {data : Js} {ops : List (Col × ScalarOp)}
    (h : rt.ops m data = some ops) {r r' : Row} (ha : applyOps ops r = some r') {c : Col}
    (hc : m.field? c = none) : r' c = r c := by
  obtain ⟨l, hl, rfl⟩ := Option.map_eq_some_iff.mp h
  refine applyOps_of_not_mem ha fun op hop heq => ?_
  obtain ⟨f, hmem, hfc⟩ := List.mem_map.mp (Runtime.fieldOps_cols hl op hop)
  have hnone := List.find?_eq_none.mp hc f hmem
  simp [hfc, heq] at hnone

/-- Nor to one that `data` leaves out. -/
theorem Runtime.ops_of_undefined {data : Js} {ops : List (Col × ScalarOp)}
    (h : rt.ops m data = some ops) {r r' : Row} (ha : applyOps ops r = some r') {c : Col}
    (hc : data.get c.key = .undefined) : r' c = r c := by
  cases hf : m.field? c with
  | some f =>
      obtain ⟨op, hop, hch⟩ := Runtime.ops_apply h ha hf
      rw [hc] at hop
      cases hop
      exact hch
  | none => exact Runtime.ops_of_no_field h ha hf

theorem Runtime.columnCondition_int (rt : Runtime) {f : Field} (ht : f.type = .int) (z : ℤ) :
    rt.columnCondition f (Js.int z) =
      if int4 z = true then some fun v => decide (v = .int z) else none := by
  have hread := rt.read_int z
  simp only [Js.int] at hread
  simp only [Runtime.columnCondition, Js.int, ht, hread]
  split <;> rfl

/-- A selected row has the integers that the `where` asks for. The induction is on the
`where`, a conjunction. -/
theorem Runtime.condition_int {w : Where} {hit : Row → Bool} (h : rt.condition m w = some hit)
    {r : Row} (hr : hit r = true) {c : Col} {z : ℤ} (hw : (c, Js.int z) ∈ w) {f : Field}
    (hf : m.field? c = some f) (ht : f.type = .int) : r c = .int z := by
  induction w generalizing hit with
  | nil => cases hw
  | cons p w ih =>
      obtain ⟨c', js⟩ := p
      unfold Runtime.condition at h
      split at h
      · rename_i p q hp hq
        cases h
        simp only [Bool.and_eq_true] at hr
        rcases List.mem_cons.mp hw with heq | hw
        · obtain ⟨rfl, rfl⟩ := Prod.mk.inj heq
          rw [hf, Option.bind_some, rt.columnCondition_int ht] at hp
          split at hp
          · cases hp
            simpa using hr.1
          · cases hp
        · exact ih hq hr.2 hw
      · cases h

/-- A selected row has the integer that the number in the `where` is read as. -/
theorem Runtime.condition_number {w : Where} {hit : Row → Bool}
    (h : rt.condition m w = some hit) {r : Row} (hr : hit r = true) {c : Col} {q : ℚ}
    (hw : (c, Js.num q) ∈ w) {f : Field} (hf : m.field? c = some f) (ht : f.type = .int) :
    ∃ z, (Js.num q).int? = some z ∧ r c = .int z := by
  induction w generalizing hit with
  | nil => cases hw
  | cons p w ih =>
      obtain ⟨c', js⟩ := p
      unfold Runtime.condition at h
      split at h
      · rename_i p q' hp hq'
        cases h
        simp only [Bool.and_eq_true] at hr
        rcases List.mem_cons.mp hw with heq | hw
        · obtain ⟨rfl, rfl⟩ := Prod.mk.inj heq
          rw [hf, Option.bind_some] at hp
          obtain ⟨v, hv, rfl⟩ := Option.map_eq_some_iff.mp hp
          rw [ht] at hv
          obtain ⟨z, hz, rfl⟩ := Runtime.read_int_eq hv
          exact ⟨z, hz, by simpa using hr.1⟩
        · exact ih hq' hr.2 hw
      · cases h

/-- What a `where` selects, column by column. -/
theorem Runtime.condition_cons {c : Col} {f : Field} (hf : m.field? c = some f) {js : Js}
    {p : Value → Bool} (hp : rt.columnCondition f js = some p) {w : Where} {q : Row → Bool}
    (hq : rt.condition m w = some q) :
    rt.condition m ((c, js) :: w) = some fun r => p (r c) && q r := by
  simp only [Runtime.condition, hf, Option.bind_some, hp, hq]

/-- A `where` on integer columns selects every row with these integers. -/
theorem Runtime.condition_ints {r : Row} {w : List (Col × ℤ)}
    (hf : ∀ p ∈ w, ∃ f, m.field? p.1 = some f ∧ f.type = .int)
    (hr : ∀ p ∈ w, r p.1 = .int p.2 ∧ int4 p.2 = true) :
    ∃ hit, rt.condition m (w.map fun p => (p.1, Js.int p.2)) = some hit ∧ hit r = true := by
  induction w with
  | nil => exact ⟨_, rfl, rfl⟩
  | cons p w ih =>
      obtain ⟨hit, hcond, hhit⟩ := ih (fun p hp => hf p (List.mem_cons_of_mem _ hp))
        fun p hp => hr p (List.mem_cons_of_mem _ hp)
      obtain ⟨f, hfield, ht⟩ := hf p (by simp)
      obtain ⟨hval, h4⟩ := hr p (by simp)
      have hcol := rt.columnCondition_int ht p.2
      rw [if_pos h4] at hcol
      refine ⟨fun r => decide (r p.1 = .int p.2) && hit r, ?_, by simp [hval, hhit]⟩
      simp [Runtime.condition, hfield, hcol, hcond]

end

/-! ## Transactions -/

section

variable {rt : Runtime} {db db' : Db} {m : Model}

/-- A transaction throws and leaves the rows, or its statements are what happened. -/
theorem transaction_cases {α : Type} (p : Nested α) (db : Db) :
    (∃ e, (transaction p db).1 = .error e ∧ (transaction p db).2.rows = db.rows) ∨
      ∃ a, (transaction p db).1 = .ok a ∧ p.run Sql.exec db = (.ok a, (transaction p db).2) := by
  unfold transaction
  split
  · rename_i a db' h
    exact .inr ⟨a, rfl, h⟩
  · rename_i e db' h
    exact .inl ⟨e, rfl, rfl⟩

/-- No sequence has gone back. -/
def Db.SeqLe (db db' : Db) : Prop := ∀ m, db.seq m ≤ db'.seq m

theorem Db.SeqLe.refl (db : Db) : db.SeqLe db := fun _ => le_refl _

theorem Db.SeqLe.trans {db db' db'' : Db} (h : db.SeqLe db') (h' : db'.SeqLe db'') :
    db.SeqLe db'' := fun m => (h m).trans (h' m)

theorem Sql.exec_seq (c : Sql) (db : Db) : db.SeqLe (c.exec db).2 := by
  intro m'
  cases c with
  | insert m r =>
      -- A sequence that hands out a number is not set back when the insert fails.
      have hbump : db.seq m' ≤ (if r .id = .null then db.bump m else db).seq m' := by
        split
        · by_cases hm : m' = m
          · subst hm; simp [Db.bump]
          · simp [Db.bump, Function.update_of_ne hm]
        · exact le_refl _
      simp only [Sql.exec, Db.insert]
      split
      · rename_i db'' hc
        rw [(Db.commit_ok hc).2]
        exact hbump
      · exact hbump
  | select m hit => exact le_refl _
  | update m hit ops =>
      simp only [Sql.exec]
      split
      · split
        · rename_i db'' hc; rw [(Db.update_ok hc).2]
        · exact le_refl _
      · exact le_refl _
  | delete m hit =>
      simp only [Sql.exec]
      split
      · rename_i db'' hc; rw [(Db.delete_ok hc).2]
      · exact le_refl _

theorem transaction_seq {α : Type} (p : Nested α) (db : Db) : db.SeqLe (transaction p db).2 := by
  have hrun : db.SeqLe (p.run Sql.exec db).2 := by
    refine Prog.run_rel_of_trace Sql.exec Db.SeqLe Db.SeqLe.refl Db.SeqLe.trans fun ev hev => ?_
    have hev := Prog.of_mem_trace Sql.exec hev
    rw [(Prod.mk.inj hev).2]
    exact Sql.exec_seq _ _
  unfold transaction
  split
  · rename_i h; rw [h] at hrun; exact hrun
  · rename_i h; rw [h] at hrun; exact hrun

theorem Runtime.Exec.seq {c : Call} {r : Answer c} (h : rt.Exec db c r db') : db.SeqLe db' := by
  cases h with
  | answered =>
      cases c with
      | findFirst m w incl => exact .refl _
      | findMany m w incl => exact .refl _
      | create m data => exact transaction_seq _ _
      | update m w data => exact transaction_seq _ _
      | updateMany m w data => exact transaction_seq _ _
      | delete m w => exact transaction_seq _ _
      | deleteMany m w => exact transaction_seq _ _
      | fetchTransactions adapter accountId start stop => exact .refl _
      | dateNow => exact .refl _
  | unreachable => exact .refl _
  | found => exact .refl _
  | fetched => exact .refl _
  | now => exact .refl _

/-! ## Statements -/

theorem Sql.update_ok {hit : Row → Bool} {ops : List (Col × ScalarOp)} {n : ℕ}
    (h : (Sql.exec (.update m hit ops) db).1 = .ok n) :
    (∀ r ∈ db.rows m, hit r = true → ∃ r', applyOps ops r = some r') ∧
      (Sql.exec (.update m hit ops) db).2.rows =
        db.rows.updated m hit fun r => (applyOps ops r).getD r := by
  unfold Sql.exec at h ⊢
  dsimp only at h ⊢
  by_cases hall : ((db.rows m).all fun r => !hit r || (applyOps ops r).isSome) = true
  · rw [if_pos hall] at h ⊢
    cases hu : db.update m hit fun r => (applyOps ops r).getD r with
    | error e => rw [hu] at h; cases h
    | ok db'' =>
        refine ⟨fun r hr hhit => Option.isSome_iff_exists.mp ?_, (Db.update_ok hu).1⟩
        have hr := List.all_eq_true.mp hall r hr
        simpa [hhit] using hr
  · rw [if_neg hall] at h
    cases h

theorem Sql.delete_ok {hit : Row → Bool} {n : ℕ} (h : (Sql.exec (.delete m hit) db).1 = .ok n) :
    (Sql.exec (.delete m hit) db).2.rows = db.rows.deleted m hit := by
  unfold Sql.exec at h ⊢
  dsimp only at h ⊢
  cases hd : db.delete m hit with
  | error e => rw [hd] at h; cases h
  | ok db'' => exact (Db.delete_ok hd).1

theorem Sql.update_error {hit : Row → Bool} {ops : List (Col × ScalarOp)} {e : PrismaError}
    (h : (Sql.exec (.update m hit ops) db).1 = .error e) :
    (Sql.exec (.update m hit ops) db).2.rows = db.rows := by
  unfold Sql.exec at h ⊢
  dsimp only at h ⊢
  by_cases hall : ((db.rows m).all fun r => !hit r || (applyOps ops r).isSome) = true
  · rw [if_pos hall] at h ⊢
    split at h
    · cases h
    · rfl
  · rw [if_neg hall]

theorem Sql.delete_error {hit : Row → Bool} {e : PrismaError}
    (h : (Sql.exec (.delete m hit) db).1 = .error e) :
    (Sql.exec (.delete m hit) db).2.rows = db.rows := by
  unfold Sql.exec at h ⊢
  dsimp only at h ⊢
  split at h
  · cases h
  · rfl

theorem sqlUpdate_run {hit : Row → Bool} {ops : List (Col × ScalarOp)} {n : ℕ}
    (h : (sqlUpdate m hit ops).run Sql.exec db = (.ok n, db')) :
    (∀ r ∈ db.rows m, hit r = true → ∃ r', applyOps ops r = some r') ∧
      db'.rows = db.rows.updated m hit fun r => (applyOps ops r).getD r := by
  simp only [sqlUpdate, Prog.run_call] at h
  split at h
  · rename_i n' hok
    obtain ⟨-, rfl⟩ := Prod.mk.inj h
    exact Sql.update_ok hok
  · cases h

theorem sqlDelete_run {hit : Row → Bool} {n : ℕ}
    (h : (sqlDelete m hit).run Sql.exec db = (.ok n, db')) :
    db'.rows = db.rows.deleted m hit := by
  simp only [sqlDelete, Prog.run_call] at h
  split at h
  · rename_i n' hok
    obtain ⟨-, rfl⟩ := Prod.mk.inj h
    exact Sql.delete_ok hok
  · cases h

/-- What an insert of `new` does: it adds `row`, which is `new` with an id. -/
structure Inserted (m : Model) (new row : Row) (db db' : Db) : Prop where
  rows : db'.rows = Function.update db.rows m (db.rows m ++ [row])
  cols : ∀ c, c ≠ .id → row c = new c
  keeps : new .id ≠ .null → row = new
  fresh : new .id = .null → row .id = .int (db.seq m)
  seq : new .id = .null → db.seq m < db'.seq m

theorem Sql.insert_ok {new row : Row} (h : (Sql.exec (.insert m new) db).1 = .ok row) :
    Inserted m new row db (Sql.exec (.insert m new) db).2 := by
  unfold Sql.exec at h ⊢
  dsimp only at h ⊢
  obtain ⟨hrows, hcols, hkeep, hfresh⟩ := Db.insert_ok h
  refine ⟨hrows, hcols, hkeep, hfresh, fun hid => ?_⟩
  unfold Db.insert at h ⊢
  simp only [hid, if_true] at h ⊢
  split at h
  · rename_i db'' hc
    rw [(Db.commit_ok hc).2]
    simp [Db.bump]
  · cases h

theorem sqlInsert_run {new row : Row}
    (h : (sqlInsert m new).run Sql.exec db = (.ok row, db')) : Inserted m new row db db' := by
  simp only [sqlInsert, Prog.run_call] at h
  split at h
  · rename_i row' hok
    obtain ⟨h1, rfl⟩ := Prod.mk.inj h
    cases h1
    exact Sql.insert_ok hok
  · cases h

/-! ## Reads -/

theorem Runtime.Exec.findFirst {w : Where} {incl : Include} {r : Except PrismaError (Option Entity)}
    (h : rt.Exec db (.findFirst m w incl) r db') :
    db' = db ∧ ((∃ e, r = .error e) ∨
      ∃ hit, rt.condition m w = some hit ∧
        ((r = .ok none ∧ ∀ row ∈ db.rows m, hit row = false) ∨
          ∃ row ∈ db.rows m, hit row = true ∧ r = .ok (some (db.rows.entity m incl row)))) := by
  cases h with
  | answered =>
      refine ⟨rfl, ?_⟩
      simp only [Runtime.answer]
      split
      · rename_i hit hcond
        refine .inr ⟨hit, hcond, ?_⟩
        cases hf : (db.rows m).find? hit with
        | none =>
            refine .inl ⟨rfl, fun row hrow => ?_⟩
            simpa using List.find?_eq_none.mp hf row hrow
        | some row =>
            exact .inr ⟨row, List.mem_of_find?_eq_some hf, List.find?_some hf, rfl⟩
      · exact .inl ⟨_, rfl⟩
  | unreachable h =>
      cases h
      exact ⟨rfl, .inl ⟨_, rfl⟩⟩
  -- without an order the database may give any row that is hit
  | found hw hr hhit => exact ⟨rfl, .inr ⟨_, hw, .inr ⟨_, hr, hhit, rfl⟩⟩⟩

theorem Runtime.Exec.findMany {w : Where} {incl : Include} {r : Except PrismaError (List Entity)}
    (h : rt.Exec db (.findMany m w incl) r db') :
    db' = db ∧ ((∃ e, r = .error e) ∨ ∃ hit, rt.condition m w = some hit ∧
      r = .ok (((db.rows m).filter hit).map (db.rows.entity m incl))) := by
  cases h with
  | answered =>
      refine ⟨rfl, ?_⟩
      simp only [Runtime.answer]
      split
      · rename_i hit hcond; exact .inr ⟨hit, hcond, rfl⟩
      · exact .inl ⟨_, rfl⟩
  | unreachable h =>
      cases h
      exact ⟨rfl, .inl ⟨_, rfl⟩⟩

/-! ## Writes

A write either fails and leaves the rows, or its program has run. -/

theorem Runtime.Exec.create_run {data : Js} {r : Except PrismaError Row}
    (h : rt.Exec db (.create m data) r db') : (∃ e, r = .error e ∧ db'.rows = db.rows) ∨
      ∃ row, r = .ok row ∧ (rt.createProgram m data).run Sql.exec db = (.ok row, db') := by
  cases h with
  | answered => exact transaction_cases _ db
  | unreachable h => cases h; exact .inl ⟨_, rfl, rfl⟩

/-- A `where` that is no condition fails, so what has run knew its condition. -/
theorem selecting_cases {α : Type} {w : Where} {p : (Row → Bool) → Nested α}
    {r : Except PrismaError α}
    (h : (∃ e, r = .error e ∧ db'.rows = db.rows) ∨
      ∃ a, r = .ok a ∧ (rt.selecting m w p).run Sql.exec db = (.ok a, db')) :
    (∃ e, r = .error e ∧ db'.rows = db.rows) ∨
      ∃ a hit, rt.condition m w = some hit ∧ r = .ok a ∧
        (p hit).run Sql.exec db = (.ok a, db') := by
  refine h.imp_right fun ⟨a, hok, hrun⟩ => ?_
  unfold Runtime.selecting at hrun
  split at hrun
  · rename_i hit hcond
    exact ⟨a, hit, hcond, hok, hrun⟩
  · cases hrun

theorem Runtime.Exec.update_run {w : Where} {data : Js} {r : Except PrismaError Row}
    (h : rt.Exec db (.update m w data) r db') : (∃ e, r = .error e ∧ db'.rows = db.rows) ∨
      ∃ row hit, rt.condition m w = some hit ∧ r = .ok row ∧
        (rt.updateProgram m hit data).run Sql.exec db = (.ok row, db') := by
  cases h with
  | answered => exact selecting_cases (transaction_cases _ db)
  | unreachable h => cases h; exact .inl ⟨_, rfl, rfl⟩

theorem Runtime.Exec.updateMany_run {w : Where} {data : Js} {r : Except PrismaError ℕ}
    (h : rt.Exec db (.updateMany m w data) r db') : (∃ e, r = .error e ∧ db'.rows = db.rows) ∨
      ∃ n hit, rt.condition m w = some hit ∧ r = .ok n ∧
        (rt.updateManyProgram m hit data).run Sql.exec db = (.ok n, db') := by
  cases h with
  | answered => exact selecting_cases (transaction_cases _ db)
  | unreachable h => cases h; exact .inl ⟨_, rfl, rfl⟩

theorem Runtime.Exec.delete {w : Where} {r : Except PrismaError Row}
    (h : rt.Exec db (.delete m w) r db') : (∃ e, r = .error e ∧ db'.rows = db.rows) ∨
      ∃ row hit, rt.condition m w = some hit ∧ r = .ok row ∧ row ∈ db.rows m ∧ hit row = true ∧
        db'.rows = db.rows.deleted m (hasId (row .id)) := by
  have hrun : (∃ e, r = .error e ∧ db'.rows = db.rows) ∨
      ∃ row hit, rt.condition m w = some hit ∧ r = .ok row ∧
        (deleteProgram m hit).run Sql.exec db = (.ok row, db') := by
    cases h with
    | answered => exact selecting_cases (transaction_cases _ db)
    | unreachable h => cases h; exact .inl ⟨_, rfl, rfl⟩
  refine hrun.imp_right fun ⟨row, hit, hcond, hok, hrun⟩ => ?_
  simp only [deleteProgram, Prog.run_bind, sqlSelect, Prog.run_call, Sql.exec, Prog.run_ret]
    at hrun
  -- the row that is deleted is the first one that the condition selects
  cases hf : (db.rows m).filter hit with
  | nil => rw [hf] at hrun; cases hrun
  | cons row' rows =>
      rw [hf] at hrun
      have hmem := List.mem_filter.mp (hf ▸ List.mem_cons_self : row' ∈ (db.rows m).filter hit)
      simp only [Prog.run_bind] at hrun
      split at hrun
      · rename_i n db'' hdel
        obtain ⟨h1, rfl⟩ := Prod.mk.inj hrun
        cases h1
        exact ⟨row, hit, hcond, hok, hmem.1, hmem.2, sqlDelete_run hdel⟩
      · cases hrun

theorem Runtime.Exec.deleteMany {w : Where} {r : Except PrismaError ℕ}
    (h : rt.Exec db (.deleteMany m w) r db') : (∃ e, r = .error e ∧ db'.rows = db.rows) ∨
      ∃ n hit, rt.condition m w = some hit ∧ r = .ok n ∧
        db'.rows = db.rows.deleted m hit := by
  have hrun : (∃ e, r = .error e ∧ db'.rows = db.rows) ∨
      ∃ n hit, rt.condition m w = some hit ∧ r = .ok n ∧
        (sqlDelete m hit).run Sql.exec db = (.ok n, db') := by
    cases h with
    | answered => exact selecting_cases (transaction_cases _ db)
    | unreachable h => cases h; exact .inl ⟨_, rfl, rfl⟩
  refine hrun.imp_right fun ⟨n, hit, hcond, hok, hrun⟩ => ?_
  exact ⟨n, hit, hcond, hok, sqlDelete_run hrun⟩

/-- A delete of anything but a category takes the selected row away and nothing else. -/
theorem Runtime.Exec.delete_filter (hm : m ≠ .category) {w : Where} {r : Except PrismaError Row}
    (h : rt.Exec db (.delete m w) r db') : db'.rows = db.rows ∨
      ∃ row hit, rt.condition m w = some hit ∧ row ∈ db.rows m ∧ hit row = true ∧
        db'.rows = Function.update db.rows m ((db.rows m).filter fun r => !hasId (row .id) r) := by
  rcases h.delete with ⟨e, -, hrows⟩ | ⟨row, hit, hcond, -, hrow, hhit, hrows⟩
  · exact .inl hrows
  · rw [Tables.deleted_of_ne hm] at hrows
    exact .inr ⟨row, hit, hcond, hrow, hhit, hrows⟩

theorem Runtime.Exec.deleteMany_filter (hm : m ≠ .category) {w : Where} {r : Except PrismaError ℕ}
    (h : rt.Exec db (.deleteMany m w) r db') : db'.rows = db.rows ∨
      ∃ hit, rt.condition m w = some hit ∧
        db'.rows = Function.update db.rows m ((db.rows m).filter fun r => !hit r) := by
  rcases h.deleteMany with ⟨e, -, hrows⟩ | ⟨n, hit, hcond, -, hrows⟩
  · exact .inl hrows
  · rw [Tables.deleted_of_ne hm] at hrows
    exact .inr ⟨hit, hcond, hrows⟩

/-! ## Writes of scalar fields -/

theorem Js.depth_pos {data : Js} {keys : List String} (h : data.hasOnly keys = true) :
    ∃ n, data.depth = n + 1 := by
  cases data with
  | obj fields => exact ⟨_, rfl⟩
  | _ => cases h

theorem Runtime.no_children {n : ℕ} {data : Js} (h : data.hasOnly m.scalarKeys = true) (v : Value)
    (inUpdate : Bool) : Prog.each m.children (fun child =>
      rt.childVerbs (rt.perform n) child.1 child.2 v inUpdate (data.get child.2.back)) =
        .ret (m.children.map fun _ => ()) := by
  refine Prog.each_ret fun child hchild => ?_
  rw [Js.get_of_hasOnly h (m.relation_not_scalar.2 child hchild)]
  rfl

theorem Runtime.createProgram_scalars {data : Js} (h : data.hasOnly m.scalarKeys = true) :
    rt.createProgram m data = match rt.newRow m [] data with
      | none => .throw .validation
      | some r => sqlInsert m r := by
  obtain ⟨n, hn⟩ := Js.depth_pos h
  have hparents : Prog.each m.foreignKeys (fun fk =>
      rt.parentOfCreate (rt.perform n) fk (data.get fk.field)) =
        .ret (m.foreignKeys.map fun _ => []) := by
    refine Prog.each_ret fun fk hfk => ?_
    rw [Js.get_of_hasOnly h (m.relation_not_scalar.1 fk hfk)]
    rfl
  have hflat : (m.foreignKeys.map fun _ => ([] : List (Col × Value))).flatten = [] := by
    simp
  rw [Runtime.createProgram, hn, Runtime.perform, Model.accepts_scalars h, if_pos rfl, hparents,
    Prog.ret_bind, hflat, List.append_nil]
  cases rt.newRow m [] data with
  | none => rfl
  | some r =>
      simp only [Runtime.no_children h, Prog.ret_bind]
      exact Prog.bind_ret _

theorem Runtime.Exec.create {data : Js} {r : Except PrismaError Row}
    (h : rt.Exec db (.create m data) r db') (hdata : data.hasOnly m.scalarKeys = true) :
    (∃ e, r = .error e ∧ db'.rows = db.rows) ∨
      ∃ new row, rt.newRow m [] data = some new ∧ r = .ok row ∧ Inserted m new row db db' := by
  refine h.create_run.imp_right fun ⟨row, hok, hrun⟩ => ?_
  rw [Runtime.createProgram_scalars hdata] at hrun
  split at hrun
  · cases hrun
  · rename_i new hnew
    exact ⟨new, row, hnew, hok, sqlInsert_run hrun⟩

/-- What an update of the rows `hit` by `data` does. -/
structure Updated (rt : Runtime) (m : Model) (hit : Row → Bool) (data : Js) (db db' : Db) :
    Prop where
  ops : ∃ ops, rt.ops m data = some ops ∧
    (∀ r ∈ db.rows m, hit r = true → ∃ r', applyOps ops r = some r') ∧
    db'.rows = db.rows.updated m hit fun r => (applyOps ops r).getD r

theorem Runtime.Exec.updateMany {w : Where} {data : Js} {r : Except PrismaError ℕ}
    (h : rt.Exec db (.updateMany m w data) r db') : (∃ e, r = .error e ∧ db'.rows = db.rows) ∨
      ∃ n hit, rt.condition m w = some hit ∧ r = .ok n ∧ data.hasOnly m.scalarKeys = true ∧
        Updated rt m hit data db db' := by
  refine h.updateMany_run.imp_right fun ⟨n, hit, hcond, hok, hrun⟩ => ?_
  unfold Runtime.updateManyProgram at hrun
  split at hrun
  · rename_i ops hops
    split at hrun
    · rename_i honly
      obtain ⟨hall, hrows⟩ := sqlUpdate_run hrun
      exact ⟨n, hit, hcond, hok, honly, ⟨ops, hops, hall, hrows⟩⟩
    · cases hrun
  · cases hrun

theorem Runtime.perform_update_scalars {data : Js} (h : data.hasOnly m.scalarKeys = true)
    (r : Row) : rt.perform data.depth (.update m r [] data) = match rt.ops m data with
      | none => .throw .validation
      | some ops => sqlUpdate m (hasId (r .id)) ops >>= fun _ =>
        .ret ((applyOps ops r).getD r) := by
  obtain ⟨n, hn⟩ := Js.depth_pos h
  have hparents : Prog.each m.foreignKeys (fun fk =>
      rt.parentOfUpdate (rt.perform n) fk (((m.field? fk.col).map (·.optional)).getD false) r
        (data.get fk.field)) = .ret (m.foreignKeys.map fun _ => []) := by
    refine Prog.each_ret fun fk hfk => ?_
    rw [Js.get_of_hasOnly h (m.relation_not_scalar.1 fk hfk)]
    rfl
  have hflat : (m.foreignKeys.map fun _ => ([] : List (Col × Value))).flatten = [] := by
    simp
  rw [hn, Runtime.perform, Model.accepts_scalars h, if_pos rfl]
  cases rt.ops m data with
  | none => rfl
  | some ops =>
      simp only [hparents, Prog.ret_bind, Runtime.no_children h, hflat, List.map_nil,
        List.append_nil, Prog.pure_eq]

theorem Runtime.Exec.update {w : Where} {data : Js} {r : Except PrismaError Row}
    (h : rt.Exec db (.update m w data) r db') (hdata : data.hasOnly m.scalarKeys = true) :
    (∃ e, r = .error e ∧ db'.rows = db.rows) ∨
      ∃ row hit, rt.condition m w = some hit ∧ row ∈ db.rows m ∧ hit row = true ∧
        Updated rt m (hasId (row .id)) data db db' := by
  refine h.update_run.imp_right fun ⟨row, hit, hcond, hok, hrun⟩ => ?_
  simp only [Runtime.updateProgram, Prog.run_bind, sqlSelect, Prog.run_call, Sql.exec,
    Prog.run_ret] at hrun
  cases hf : (db.rows m).filter hit with
  -- no record to update: the program throws, and has not ended well
  | nil => rw [hf] at hrun; cases hrun
  | cons row' rows =>
      rw [hf] at hrun
      have hmem := List.mem_filter.mp (hf ▸ List.mem_cons_self : row' ∈ (db.rows m).filter hit)
      -- without nested writes the update is one statement
      simp only [Runtime.perform_update_scalars hdata] at hrun
      split at hrun
      · cases hrun
      · rename_i ops hops
        rw [Prog.run_bind] at hrun
        split at hrun
        · rename_i n db'' hupd
          obtain ⟨-, rfl⟩ := Prod.mk.inj hrun
          obtain ⟨hall, hrows⟩ := sqlUpdate_run hupd
          exact ⟨row', hit, hcond, hmem.1, hmem.2, ⟨ops, hops, hall, hrows⟩⟩
        · cases hrun

/-! ## Rules for the calls in a program -/

variable {Q : Except ServiceError (Option Entity) → Db → Prop}

/-- A `findFirst` throws, finds nothing, or gives a row that its `where` selects. -/
theorem findFirst_always {w : Where} {incl : Include} (herror : ∀ e, Q (.error e) db)
    (hnone : Q (.ok none) db)
    (hsome : ∀ hit row, rt.condition m w = some hit → row ∈ db.rows m → hit row = true →
      Q (.ok (some (db.rows.entity m incl row))) db) :
    (findFirst m w incl).Always rt.Exec db Q := by
  intro r db' h
  obtain ⟨rfl, ⟨e, rfl⟩ | ⟨hit, hcond, ⟨rfl, -⟩ | ⟨row, hrow, hhit, rfl⟩⟩⟩ := h.findFirst
  · exact herror _
  · exact hnone
  · exact hsome hit row hcond hrow hhit

theorem findMany_always {w : Where} {incl : Include}
    {Q : Except ServiceError (List Entity) → Db → Prop} (herror : ∀ e, Q (.error e) db)
    (hok : ∀ hit, rt.condition m w = some hit →
      Q (.ok (((db.rows m).filter hit).map (db.rows.entity m incl))) db) :
    (findMany m w incl).Always rt.Exec db Q := by
  intro r db' h
  obtain ⟨rfl, ⟨e, rfl⟩ | ⟨hit, hcond, rfl⟩⟩ := h.findMany
  · exact herror _
  · exact hok hit hcond

theorem fetchTransactions_always {adapter accountId : String} {start stop : Option ℤ}
    {Q : Except ServiceError (List BankTransaction) → Db → Prop} (herror : ∀ e, Q (.error e) db)
    (hok : ∀ l, Q (.ok l) db) :
    (fetchTransactions adapter accountId start stop).Always rt.Exec db Q := by
  intro r db' h
  have hsame : db' = db := by
    cases h with
    | answered => rfl
    | unreachable h => cases h
    | fetched => rfl
  subst hsame
  cases r with
  | ok l => exact hok l
  | error e => exact herror _

theorem dateNow_always {Q : Except ServiceError ℤ → Db → Prop} (h : ∀ t, Q (.ok t) db) :
    dateNow.Always rt.Exec db Q := by
  intro t db' hexec
  have hsame : db' = db := by
    cases hexec with
    | answered => rfl
    | unreachable h => cases h
    | now => rfl
  subst hsame
  exact h t

theorem awaited_always {α : Type} {step : Db → (c : Call) → Answer c → Db → Prop} {c : Call}
    {answer : Answer c → Except PrismaError α} {Q : Except ServiceError α → Db → Prop}
    (h : ∀ r db', step db c r db' → Q ((answer r).mapError .prisma) db') :
    (Prog.call c fun r => awaited (answer r) : Service α).Always step db Q := by
  intro r db' hexec
  have hq := h r db' hexec
  show (awaited (answer r)).Always step db' Q
  cases hanswer : answer r with
  | ok a => rwa [hanswer] at hq
  | error e => rwa [hanswer] at hq

/-! A write, with what holds of every outcome and state that the call can lead to. -/

theorem create_always {data : Js} {Q : Except ServiceError Row → Db → Prop}
    (h : ∀ r db', rt.Exec db (.create m data) r db' → Q (r.mapError .prisma) db') :
    (FinanceTracker.create m data).Always rt.Exec db Q := awaited_always h

theorem update_always {w : Where} {data : Js} {Q : Except ServiceError Row → Db → Prop}
    (h : ∀ r db', rt.Exec db (.update m w data) r db' → Q (r.mapError .prisma) db') :
    (FinanceTracker.update m w data).Always rt.Exec db Q := awaited_always h

theorem updateMany_always {w : Where} {data : Js} {Q : Except ServiceError ℕ → Db → Prop}
    (h : ∀ r db', rt.Exec db (.updateMany m w data) r db' → Q (r.mapError .prisma) db') :
    (updateMany m w data).Always rt.Exec db Q := awaited_always h

theorem delete_always {w : Where} {Q : Except ServiceError Row → Db → Prop}
    (h : ∀ r db', rt.Exec db (.delete m w) r db' → Q (r.mapError .prisma) db') :
    (delete m w).Always rt.Exec db Q := awaited_always h

theorem deleteMany_always {w : Where} {Q : Except ServiceError ℕ → Db → Prop}
    (h : ∀ r db', rt.Exec db (.deleteMany m w) r db' → Q (r.mapError .prisma) db') :
    (deleteMany m w).Always rt.Exec db Q := awaited_always h

end

end EngineeringLab.FinanceTracker
