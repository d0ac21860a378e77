/-
Tenant reference closure: the account and category of a transaction, and the category
of a budget, are of its own household.

The foreign keys only ask that the referenced row exists. That it is the household's own
is checked for accounts (`TransactionsService.create` looks the account up) and nowhere
for categories: `create` and `update` of transactions and of budgets write any
`categoryId` they are given (`foreign_category_leaks`). In runs that bring no foreign
category id the closure holds, and with it the nested reads give rows of the household
only (`references_closed`).

Closure is a property of tables: for every transaction its account and its category, and for
every budget its category, have the household of the row that refers to them
(`Tables.ReferencesClosed`). The steps of the operations are the same as for isolation, with
the ids that a request brings along as a parameter: a step keeps the closure if these are
the household's own.

Nested reads follow the references that are stored, and do not look at households on the
way. So the leak needs two requests, one that writes the foreign id and one that reads the
row back with what it refers to, and the second may be made by anybody of the household.
-/
import EngineeringLab.FinanceTracker.Isolation

set_option autoImplicit false

open Concurrency

namespace EngineeringLab.FinanceTracker

/-- The references between rows of money: of which model, by which column, to which. -/
def moneyReferences : List (Model × Col × Model) :=
  [(.transaction, .accountId, .account), (.transaction, .categoryId, .category),
    (.budget, .categoryId, .category)]

/-- Every row of money refers to rows of its own household. -/
def Tables.ReferencesClosed (t : Tables) : Prop :=
  ∀ ref ∈ moneyReferences, ∀ x ∈ t ref.1, ∀ p ∈ t ref.2.2, p .id = x ref.2.1 →
    p .householdId = x .householdId

instance (t : Tables) : Decidable t.ReferencesClosed :=
  inferInstanceAs (Decidable (∀ ref ∈ moneyReferences, ∀ x ∈ t ref.1, ∀ p ∈ t ref.2.2,
    p .id = x ref.2.1 → p .householdId = x .householdId))

/-- The categories that a value may name are all of household `H`. -/
def Tables.Owned (t : Tables) (H : ℤ) (names : Value → Prop) : Prop :=
  ∀ v, names v → ∀ c ∈ t .category, c .id = v → c .householdId = .int H

/-- The category that the operation is given, if it exists, is the household's. -/
def Operation.OwnCategory (H : ℤ) (t : Tables) (op : Operation) : Prop :=
  t.Owned H op.categoryId.names

/-! ## One statement -/

section

variable {H : ℤ} {names : Value → Prop} {t t' : Tables}

/-- A row that is referred to was there before: a reference is to an existing row, and ids
are unique. -/
theorem Valid.referenced (h : Valid t) (h' : Valid t') {m : Model} {x p : Row} (hx : x ∈ t m)
    {fk : ForeignKey} (hfk : fk ∈ m.foreignKeys) (hsub : t fk.target ⊆ t' fk.target)
    (hp : p ∈ t' fk.target) (hid : p .id = x fk.col) : p ∈ t fk.target := by
  rcases h.refs m x hx fk hfk with hnull | ⟨q, hq, hqid⟩
  · exact absurd (hid.trans hnull) (h'.id_ne_null hp)
  · rwa [h'.eq_of_id hp (hsub hq) (hid.trans hqid.symm)]

theorem moneyReferences_foreignKeys : ∀ ref ∈ moneyReferences, ∃ fk ∈ Model.foreignKeys ref.1,
    fk.col = ref.2.1 ∧ fk.target = ref.2.2 := by
  intro ref href
  simp only [moneyReferences, List.mem_cons, List.not_mem_nil, or_false] at href
  rcases href with rfl | rfl | rfl <;> simp [Model.foreignKeys]

theorem moneyReferences_ne : ∀ ref ∈ moneyReferences, ref.1 ≠ ref.2.2 := by
  simp [moneyReferences]

/-- A statement on another table. -/
theorem closed_of_other {m : Model} {rows : List Row} (h : t.ReferencesClosed)
    (hm : ∀ ref ∈ moneyReferences, m ≠ ref.1 ∧ m ≠ ref.2.2) :
    Tables.ReferencesClosed (Function.update t m rows) := by
  intro ref href x hx p hp
  rw [Function.update_of_ne (hm ref href).1.symm] at hx
  rw [Function.update_of_ne (hm ref href).2.symm] at hp
  exact h ref href x hx p hp

/-- Taking rows away. -/
theorem closed_of_subset (h : t.ReferencesClosed) (hsub : ∀ m, t' m ⊆ t m) :
    t'.ReferencesClosed :=
  fun ref href x hx p hp => h ref href x (hsub _ hx) p (hsub _ hp)

/-- What a change of `H`'s rows leaves of each row. -/
theorem mem_changed {m m' : Model} {f : Row → Row}
    (hf : ∀ r ∈ t m, f r = r ∨ r .householdId = .int H ∧ f r .householdId = .int H ∧
      f r .id = r .id ∧ f r .accountId = r .accountId ∧
        (f r .categoryId = r .categoryId ∨ f r .categoryId = .null ∨ names (f r .categoryId)))
    {x : Row} (hx : x ∈ Function.update t m ((t m).map f) m') :
    ∃ y ∈ t m', x .id = y .id ∧ x .householdId = y .householdId ∧ x .accountId = y .accountId ∧
      (x .categoryId = y .categoryId ∨ x .categoryId = .null ∨
        names (x .categoryId) ∧ x .householdId = .int H) := by
  by_cases hm : m' = m
  · subst hm
    rw [Function.update_self] at hx
    obtain ⟨y, hy, rfl⟩ := List.mem_map.mp hx
    rcases hf y hy with hsame | ⟨hbefore, hafter, hid, haccount, hcategory⟩
    · exact ⟨y, hy, by rw [hsame], by rw [hsame], by rw [hsame], .inl (by rw [hsame])⟩
    · refine ⟨y, hy, hid, hafter.trans hbefore.symm, haccount, ?_⟩
      exact hcategory.imp_right fun h => h.imp_right fun h => ⟨h, hafter⟩
  · rw [Function.update_of_ne hm] at hx
    exact ⟨x, hx, rfl, rfl, rfl, .inl rfl⟩

/-- A category that is null or named is of household `H`, if it exists. -/
theorem Tables.Owned.household (hnames : t.Owned H names) (hv : Valid t) {v : Value}
    (hcategory : v = .null ∨ names v) {p : Row} (hp : p ∈ t .category) (hid : p .id = v) :
    p .householdId = .int H := by
  rcases hcategory with rfl | hnamed
  · exact absurd hid (hv.id_ne_null hp)
  · exact hnames v hnamed p hp hid

/-- A row is made whose references are to its own household. -/
theorem closed_of_insert {m : Model} {row : Row} (hv : Valid t)
    (hv' : Valid (Function.update t m (t m ++ [row]))) (hclosed : t.ReferencesClosed)
    (hrow : ∀ ref ∈ moneyReferences, ref.1 = m → ∀ p ∈ t ref.2.2, p .id = row ref.2.1 →
      p .householdId = row .householdId) :
    Tables.ReferencesClosed (Function.update t m (t m ++ [row])) := by
  intro ref href x hx p hp hid
  obtain ⟨fk, hfk, hcol, htarget⟩ := moneyReferences_foreignKeys ref href
  have hold : x ∈ t ref.1 → p .householdId = x .householdId := by
    intro hx
    refine hclosed ref href x hx p ?_ hid
    rw [← htarget] at hp ⊢
    exact hv.referenced hv' hx hfk (Tables.subset_appended _) hp (hcol ▸ hid)
  by_cases hchild : ref.1 = m
  · rw [hchild, Function.update_self, List.mem_append, List.mem_singleton] at hx
    rcases hx with hx | rfl
    · exact hold (hchild ▸ hx)
    · -- the new row refers to what was there
      rw [Function.update_of_ne (hchild ▸ (moneyReferences_ne ref href).symm)] at hp
      exact hrow ref href hchild p hp hid
  · rw [Function.update_of_ne hchild] at hx
    exact hold hx

/-- Rows of `H` change, and refer to what they referred to or to what is named. -/
theorem closed_of_change {m : Model} {f : Row → Row} (hv : Valid t) (hclosed : t.ReferencesClosed)
    (hnames : t.Owned H names)
    (hf : ∀ r ∈ t m, f r = r ∨ r .householdId = .int H ∧ f r .householdId = .int H ∧
      f r .id = r .id ∧ f r .accountId = r .accountId ∧
        (f r .categoryId = r .categoryId ∨ f r .categoryId = .null ∨ names (f r .categoryId))) :
    Tables.ReferencesClosed (Function.update t m ((t m).map f)) := by
  intro ref href x' hx' p' hp' hid'
  obtain ⟨x, hx, -, hown, haccount, hcategory⟩ := mem_changed hf hx'
  obtain ⟨p, hp, hpid, hpown, -, -⟩ := mem_changed hf hp'
  rw [hpown]
  rw [hpid] at hid'
  -- A reference that was there before goes where it went before.
  have hkept : x' ref.2.1 = x ref.2.1 → p .householdId = x' .householdId := by
    intro hcol
    rw [hown]
    exact hclosed ref href x hx p hp (hid'.trans hcol)
  have hcategory' : ref.2 = (.categoryId, .category) → p .householdId = x' .householdId := by
    intro heq
    rw [heq] at hp hid' hkept
    rcases hcategory with hsame | hnull | ⟨hnamed, hH⟩
    · exact hkept hsame
    · exact absurd (hid'.trans hnull) (hv.id_ne_null hp)
    · rw [hH]
      exact hnames.household hv (.inr hnamed) hp hid'
  simp only [moneyReferences, List.mem_cons, List.not_mem_nil, or_false] at href
  rcases href with rfl | rfl | rfl
  · exact hkept haccount
  · exact hcategory' rfl
  · exact hcategory' rfl

theorem TenantWrite.closed (h : TenantWrite H names t t') (hv : Valid t) (hv' : Valid t')
    (hclosed : t.ReferencesClosed) (hnames : t.Owned H names) : t'.ReferencesClosed := by
  cases h with
  | @insert m row hm hrow haccount hcategory =>
      refine closed_of_insert hv hv' hclosed fun ref href hchild p hp hid => ?_
      rw [hrow]
      simp only [moneyReferences, List.mem_cons, List.not_mem_nil, or_false] at href
      rcases href with rfl | rfl | rfl
      · obtain ⟨a, ha, haid, hown⟩ := haccount hchild.symm
        rwa [hv.eq_of_id hp ha (hid.trans haid.symm)]
      · exact hnames.household hv (hcategory (.inl hchild.symm)) hp hid
      · exact hnames.household hv (hcategory (.inr hchild.symm)) hp hid
  | change hm hf => exact closed_of_change hv hclosed hnames hf
  | rename hf =>
      refine closed_of_other hclosed ?_
      simp [moneyReferences]
  | remove hkeep => exact closed_of_subset hclosed Tables.filtered_subset
  | assign hrow =>
      refine closed_of_other hclosed ?_
      simp [moneyReferences]

/-- The categories that an operation names stay with their household. -/
theorem TenantWrite.owned (h : TenantWrite H names t t') (hnames : t.Owned H names) :
    t'.Owned H names := by
  intro v hv c hc hid
  cases h with
  | @insert m row hm hrow _ _ =>
      by_cases hcategory : Model.category = m
      · subst hcategory
        rw [Function.update_self, List.mem_append, List.mem_singleton] at hc
        rcases hc with hc | rfl
        · exact hnames v hv c hc hid
        · exact hrow
      · rw [Function.update_of_ne hcategory] at hc
        exact hnames v hv c hc hid
  | change hm hf =>
      obtain ⟨y, hy, hyid, hown, -, -⟩ := mem_changed hf hc
      rw [hown]
      exact hnames v hv y hy (hyid.symm.trans hid)
  | rename hf =>
      rw [Function.update_of_ne (by decide)] at hc
      exact hnames v hv c hc hid
  | remove hkeep => exact hnames v hv c (Tables.filtered_subset _ hc) hid
  | assign hrow =>
      rw [Function.update_of_ne (by decide)] at hc
      exact hnames v hv c hc hid

theorem TenantWrites.closed (h : TenantWrites H names t t') (hv : Valid t)
    (hclosed : t.ReferencesClosed) (hnames : t.Owned H names) : t'.ReferencesClosed := by
  have hall : Valid t' ∧ t'.ReferencesClosed ∧ t'.Owned H names := by
    induction h with
    | refl => exact ⟨hv, hclosed, hnames⟩
    | tail _ hstep ih =>
        obtain ⟨hv₁, hclosed₁, hnames₁⟩ := ih
        exact ⟨hstep.2, hstep.1.closed hv₁ hstep.2 hclosed₁ hnames₁, hstep.1.owned hnames₁⟩
  exact hall.2.1

/-- A deleted category leaves no reference behind. -/
theorem closed_deleted_category {hit : Row → Bool} (hv : Valid t) (hclosed : t.ReferencesClosed) :
    (t.deleted .category hit).ReferencesClosed := by
  have hkeep : ∀ (child : Model) c v, c ≠ .categoryId →
      t.orphaned .category hit child c v = false := fun child c v hc =>
    Tables.not_orphaned (fun fk hfk hnull hcol =>
      hc (hcol.symm.trans (child.setNull_category fk hfk hnull).2)) v
  intro ref href x' hx' p' hp' hid'
  obtain ⟨x, hx, -, rfl⟩ := Tables.mem_deleted.mp hx'
  obtain ⟨p, hp, -, rfl⟩ := Tables.mem_deleted.mp hp'
  simp only [hkeep _ .id _ (by decide), hkeep _ .householdId _ (by decide), Bool.false_eq_true,
    if_false] at hid' ⊢
  by_cases horphan : t.orphaned .category hit ref.1 ref.2.1 (x ref.2.1) = true
  · rw [if_pos horphan] at hid'
    exact absurd hid' (hv.id_ne_null hp)
  · rw [if_neg horphan] at hid'
    exact hclosed ref href x hx p hp hid'

end

/-! ## One operation -/

section

variable {rt : Runtime} {app : App} {H : ℤ} {db db₀ : Db}

theorem Operation.closed {op : Operation} (hop : op.hasTypes = true)
    (hown : op.OwnCategory H db.rows) (hclosed : db.rows.ReferencesClosed) :
    (op.body rt app H).Always rt.Exec db fun _ db' => db'.rows.ReferencesClosed := by
  by_cases hconfined : op.confined = true
  · exact (op.writes hop hconfined).mono fun _ _ hw => hw.closed db.valid hclosed hown
  · cases op with
    | unassignRole roleId userId =>
        refine discard_always (Prog.Always.bind
          (findFirst_always (fun _ => hclosed) hclosed fun hit a _ _ _ => ?_))
        refine delete_always fun r db' h => ?_
        rcases h.delete_filter (by decide) with hrows | ⟨row, hit, -, -, -, hrows⟩
        · rwa [hrows]
        · rw [hrows]
          exact closed_of_subset hclosed Tables.filtered_subset
    | categories op =>
        cases op with
        | remove id =>
            refine discard_always (deleteMany_always fun r db' h => ?_)
            rcases h.deleteMany with ⟨e, -, hrows⟩ | ⟨n, hit, -, -, hrows⟩
            · rwa [hrows]
            · rw [hrows]
              exact closed_deleted_category db.valid hclosed
        | _ => exact absurd rfl hconfined
    | _ => exact absurd rfl hconfined

/-! ## Nested reads -/

/-- Are the row and all rows that came with it the household's? -/
def Entity.Of (t : Tables) (H : ℤ) (m : Model) (e : Entity) : Prop :=
  t.Owns H m e.row ∧ ∀ p ∈ e.included, t.Owns H p.1 p.2

instance (t : Tables) (H : ℤ) (m : Model) (e : Entity) : Decidable (e.Of t H m) :=
  inferInstanceAs (Decidable (t.Owns H m e.row ∧ ∀ p ∈ e.included, t.Owns H p.1 p.2))

/-- The relation fields that the nested reads follow. -/
def Model.nestedReads : Model → List String
  | .transaction => ["account", "category"]
  | .account => ["transactions"]
  | .category => ["transactions"]
  | _ => []

/-- Such a field leads along one of the references between rows of money. -/
theorem nestedReads_references (m : Model) : ∀ key ∈ m.nestedReads,
    (∀ fk ∈ m.foreignKeys, fk.field = key → (m, fk.col, fk.target) ∈ moneyReferences) ∧
      ∀ child ∈ m.children, child.2.back = key → (child.1, child.2.col, m) ∈ moneyReferences := by
  cases m <;> decide

theorem Model.nestedReads_tenant {m : Model} {key : String} (h : key ∈ m.nestedReads) :
    m.tenant = true ∧ (∀ fk ∈ m.foreignKeys, fk.field = key → fk.target.tenant = true) ∧
      ∀ child ∈ m.children, child.2.back = key → child.1.tenant = true := by
  revert key
  cases m <;> decide

/-- What comes with a row of `H` is of `H`. -/
theorem Tables.ReferencesClosed.entity {t : Tables} (hclosed : t.ReferencesClosed) {m : Model}
    (keys : List String) (hkeys : ∀ key ∈ keys, key ∈ m.nestedReads) {r : Row} (hr : r ∈ t m)
    (hown : r .householdId = .int H) (hm : m.tenant = true) :
    (t.entity m (keys.map fun key => [key]) r).Of t H m := by
  refine ⟨(Tables.owns_tenant hm).mpr hown, fun p hp => ?_⟩
  simp only [Tables.entity, List.flatMap_map, List.mem_flatMap, Tables.followPath] at hp
  obtain ⟨key, hkey, hp⟩ := hp
  obtain ⟨hfk, hchild⟩ := nestedReads_references m key (hkeys key hkey)
  obtain ⟨-, hfk', hchild'⟩ := Model.nestedReads_tenant (hkeys key hkey)
  rcases Tables.mem_follow.mp hp with ⟨fk, hmem, hfield, hmodel, hrow, hid⟩ |
    ⟨child, hmem, hback, hmodel, hrow, hid⟩
  · refine (Tables.owns_tenant (hmodel ▸ hfk' fk hmem hfield)).mpr ?_
    rw [hmodel] at hrow
    rw [hclosed _ (hfk fk hmem hfield) r hr p.2 hrow hid]
    exact hown
  · refine (Tables.owns_tenant (hmodel ▸ hchild' child hmem hback)).mpr ?_
    rw [hmodel] at hrow
    rw [← hclosed _ (hchild child hmem hback) p.2 hrow r hr hid.symm]
    exact hown

variable (rt app)

/-- The nested reads give household `H` rows of `H` only: the transactions with account and
category, a category with its transactions, an account with its transactions. -/
structure NestedReadsOwn (db : Db) (H id : ℤ) : Prop where
  transactions : (TransactionsService.findAll H).Always rt.Exec db fun o _ =>
    ∀ l, o = .ok l → ∀ e ∈ l, e.Of db.rows H .transaction
  transaction : (TransactionsService.findOne H id).Always rt.Exec db fun o _ =>
    ∀ e, o = .ok (some e) → e.Of db.rows H .transaction
  category : (CategoriesService.findOne H id).Always rt.Exec db fun o _ =>
    ∀ e, o = .ok (some e) → e.Of db.rows H .category
  account : (AccountsService.findOne H (.int id)).Always rt.Exec db fun o _ =>
    ∀ e, o = .ok (some e) → e.Of db.rows H .account

/-- One operation of some household that brings no category id of another one. -/
def OwnCategoryStep (db db' : Db) : Prop :=
  ∃ (H : ℤ) (op : Operation) (o : Except ServiceError Unit), op.hasTypes = true ∧
    op.OwnCategory H db.rows ∧ (op.body rt app H).Ends rt.Exec db o db'

variable {rt app}

/-- A nested read of one row of the household. -/
theorem Tables.ReferencesClosed.findFirst (hclosed : db.rows.ReferencesClosed) {m : Model}
    (keys : List String) (hkeys : ∀ key ∈ keys, key ∈ m.nestedReads) (hm : m.tenant = true)
    {id : ℤ} : (findFirst m (ownRow id H) (keys.map fun key => [key])).Always rt.Exec db fun o _ =>
      ∀ e, o = .ok (some e) → e.Of db.rows H m := by
  refine findFirst_always (fun _ _ h => by cases h) (fun _ h => by cases h) ?_
  rintro hit row hcond hrow hhit e ⟨⟩
  obtain ⟨hid, hhousehold⟩ := Model.tenant_fields hm
  exact hclosed.entity keys hkeys hrow (condition_ownRow hcond hhit hid hhousehold).2 hm

theorem Tables.ReferencesClosed.nestedReadsOwn (hclosed : db.rows.ReferencesClosed) (H id : ℤ) :
    NestedReadsOwn rt db H id where
  transactions := by
    refine findMany_always (fun _ _ h => by cases h) ?_
    rintro hit hcond l ⟨⟩ e he
    obtain ⟨r, hr, rfl⟩ := List.mem_map.mp he
    obtain ⟨hmem, hhit⟩ := List.mem_filter.mp hr
    exact hclosed.entity ["account", "category"] (by decide) hmem
      (Runtime.condition_int hcond hhit (c := .householdId) List.mem_cons_self rfl rfl) rfl
  transaction := hclosed.findFirst ["account", "category"] (by decide) rfl
  category := hclosed.findFirst ["transactions"] (by decide) rfl
  account := hclosed.findFirst ["transactions"] (by decide) rfl

/-- **Tenant reference closure.** In every run from a state with closed references whose
operations bring no category id of another household, the references are closed, and
everything that a nested read gives a household is a row of that household. -/
theorem references_closed (hclosed : db₀.rows.ReferencesClosed)
    (hrun : Relation.ReflTransGen (OwnCategoryStep rt app) db₀ db) :
    db.rows.ReferencesClosed ∧ ∀ H id, NestedReadsOwn rt db H id := by
  have hall : db.rows.ReferencesClosed := by
    induction hrun with
    | refl => exact hclosed
    | tail _ hstep ih =>
        obtain ⟨H, op, o, hop, hown, hends⟩ := hstep
        exact Prog.always_iff.mp (op.closed hop hown ih) o _ hends
  exact ⟨hall, hall.nestedReadsOwn⟩

end

/-! ## On the seed -/

/-- A runtime that can read the first day of 2026. -/
def Runtime.dated : Runtime :=
  { Runtime.closed with newDate := fun
    | .str "2026-01-01" => some 1767225600000
    | _ => none }

/-- Household `owner` makes a category, and household 1 files a transaction under it. -/
def Seed.filed (owner : ℤ) : Db :=
  after Runtime.dated ((Operation.transactions (.create (.obj [("amount", .int 12),
      ("description", .str "Lunch"), ("date", .str "2026-01-01"), ("accountId", .int 1),
      ("categoryId", .int 1)]))).body Runtime.dated seededApp 1)
    (after Runtime.dated ((Operation.categories (.create (.obj [("name", .str "Food")]))).body
      Runtime.dated seededApp owner) seeded)

/-- Household 1 makes a category and files an expense under it: the references stay closed,
and what a nested read shows a household is its own. -/
theorem references_closed_example :
    ((Seed.filed 1).rows .transaction).length = 1 ∧ (Seed.filed 1).rows.ReferencesClosed ∧
      ∀ H id, NestedReadsOwn Runtime.dated (Seed.filed 1) H id := by
  have hrun : Relation.ReflTransGen (OwnCategoryStep Runtime.dated seededApp) seeded
      (Seed.filed 1) := by
    refine .tail (.single ⟨1, _, _, by decide +kernel, ?_, ends_after _ _ _⟩)
      ⟨1, _, _, by decide +kernel, ?_, ends_after _ _ _⟩
    · rintro v ⟨z, hz, rfl⟩
      cases hz
    · have hall : ((after Runtime.dated ((Operation.categories (.create (.obj
          [("name", .str "Food")]))).body Runtime.dated seededApp 1) seeded).rows .category).all
            fun c => decide (c .householdId = .int 1) := by
        decide +kernel
      exact fun v _ c hc _ => of_decide_eq_true (List.all_eq_true.mp hall c hc)
  exact ⟨by decide +kernel, references_closed (by decide +kernel) hrun⟩

/-- Does a record of another household come along with the answer? -/
def showsForeign (t : Tables) (H : ℤ) (m : Model) : Except ServiceError (Option Entity) → Bool
  | .ok (some e) => !decide (e.Of t H m)
  | _ => false

/-- **A foreign category leaks**: household 1 files its transaction under a category of
household 2, and household 2 reads the transaction with the category. -/
theorem foreign_category_leaks : ∃ db,
    Relation.ReflTransGen (OperationStep Runtime.dated seededApp) seeded db ∧
      ¬ db.rows.ReferencesClosed ∧ ¬ NestedReadsOwn Runtime.dated db 2 1 := by
  refine ⟨Seed.filed 2, ?_, by decide +kernel, fun hreads => ?_⟩
  · exact .tail (.single ⟨2, _, _, by decide +kernel, ends_after _ _ _⟩)
      ⟨1, _, _, by decide +kernel, ends_after _ _ _⟩
  · have hall := Prog.always_iff.mp hreads.category _ _
      (ends_after Runtime.dated (CategoriesService.findOne 2 1) (Seed.filed 2))
    have hforeign : showsForeign (Seed.filed 2).rows 2 .category
        ((CategoriesService.findOne 2 1).run Runtime.dated.answer (Seed.filed 2)).1 = true := by
      decide +kernel
    unfold showsForeign at hforeign
    split at hforeign
    · rename_i e he
      rw [decide_eq_true (hall e he)] at hforeign
      cases hforeign
    · cases hforeign

end EngineeringLab.FinanceTracker
