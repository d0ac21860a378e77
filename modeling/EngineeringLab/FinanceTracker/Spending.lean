/-
`currentSpent`, the running total that a budget keeps of its category.

The listener adds the amount of each transaction that is created, and nothing else ever
moves the total: there is no event for an update or a removal. So over any sequence of calls
of the transactions service, what the household's budgets for the category count together
changes by what the calls of `create` added to the household's transactions of the category,
and no other call touches a budget (`spending_tracks_creations`), though the others do change
the transactions (`spending_drifts`). It is the total of all its budgets for the category: the
schema allows several, and the listener picks any one of them.

The amount goes through `Number` on its way to the listener, and both columns are
`DECIMAL(65,30)`. So the sums are about amounts that `Number` gives back as they are stored,
such as all of at most fifteen digits (`CrudOperation.Exact`), and a running total that has no
room for another amount is a call of the database that fails. Adding two numbers of thirty
digits behind the point is then exact (`numeric_of_scaled`).
-/
import EngineeringLab.FinanceTracker.Bodies
import Mathlib.Algebra.BigOperators.Group.List.Basic
import Mathlib.Tactic.FieldSimp
import Mathlib.Tactic.Linarith

set_option autoImplicit false

open Concurrency

namespace EngineeringLab.FinanceTracker

/-! ## Decimals -/

/-- Has the number at most thirty digits behind the point? These are the numbers that a
`Decimal` column keeps as they are, and sums of them are such numbers again. -/
def Scaled (q : ℚ) : Prop := ∃ z : ℤ, q * 10 ^ 30 = z

theorem Scaled.of_decimal65 {q : ℚ} (h : decimal65 q = true) : Scaled q :=
  ⟨_, (Rat.coe_int_num_of_den_eq_one (of_decide_eq_true h).1).symm⟩

theorem Scaled.add {q q' : ℚ} (h : Scaled q) (h' : Scaled q') : Scaled (q + q') := by
  obtain ⟨z, hz⟩ := h
  obtain ⟨z', hz'⟩ := h'
  exact ⟨z + z', by rw [add_mul, hz, hz', Int.cast_add]⟩

/-- Half a unit above an integer, the integer is what is below. -/
theorem floor_add_half (z : ℤ) : ((z : ℚ) + 1 / 2).floor = z := by
  have hle : z ≤ ((z : ℚ) + 1 / 2).floor := Rat.le_floor_iff.mpr (by linarith)
  have hlt : ((z : ℚ) + 1 / 2).floor < z + 1 :=
    Rat.floor_lt_iff.mpr (by push_cast; linarith)
  omega

theorem scaled_numeric (q : ℚ) : Scaled (numeric q) := by
  unfold numeric
  split
  · exact ⟨_, div_mul_cancel₀ _ (by norm_num)⟩
  · refine ⟨-(-q * 10 ^ 30 + 1 / 2).floor, ?_⟩
    rw [neg_mul, div_mul_cancel₀ _ (by norm_num), Int.cast_neg]

/-- Such a number is kept as it is. -/
theorem numeric_of_scaled {q : ℚ} (h : Scaled q) : numeric q = q := by
  obtain ⟨z, hz⟩ := h
  unfold numeric
  split
  · rw [hz, floor_add_half, ← hz, mul_div_cancel_right₀ _ (by norm_num)]
  · have hneg : -q * 10 ^ 30 = ((-z : ℤ) : ℚ) := by rw [neg_mul, hz, Int.cast_neg]
    rw [hneg, floor_add_half, Int.cast_neg, ← hz, neg_div, neg_neg,
      mul_div_cancel_right₀ _ (by norm_num)]

/-! ## Totals -/

/-- The number in a `Decimal` column. -/
def Value.rational : Value → ℚ
  | .decimal q => q
  | _ => 0

/-- Is the row of household `H` and of category `c`? The question is the same for a
transaction and for a budget, whose columns have the same names. -/
def belongs (H c : ℤ) (r : Row) : Bool := r .householdId = .int H && r .categoryId = .int c

/-- The sum of a column over the rows of `H` that are of category `c`. The number of rows is
not bounded, and what is no number counts nothing. -/
def Tables.total (t : Tables) (m : Model) (col : Col) (H c : ℤ) : ℚ :=
  ((t m).map fun r => if belongs H c r then (r col).rational else 0).sum

/-- The amounts of the stored transactions of `H` that are of category `c`, as the column
keeps them. -/
def Tables.spentOn (t : Tables) (H c : ℤ) : ℚ := t.total .transaction .amount H c

/-- What the budgets of `H` for `c` have counted, all together: the listener adds to one of
them, and the query does not say to which. -/
def Tables.counted (t : Tables) (H c : ℤ) : ℚ := t.total .budget .currentSpent H c

/-- The `currentSpent` of budget `b`, and zero where there is no such budget. -/
def Tables.currentSpent (t : Tables) (b : ℤ) : ℚ :=
  ((t .budget).find? (hasId (.int b))).elim 0 fun r => (r .currentSpent).rational

theorem belongs_iff {H c : ℤ} {r : Row} :
    belongs H c r = true ↔ r .householdId = .int H ∧ r .categoryId = .int c := by
  simp [belongs]

/-- A sum in which one element counts differently. -/
theorem sum_map_change {α : Type} {l : List α} (hl : l.Nodup) {a : α} (ha : a ∈ l) {x y : α → ℚ}
    (h : ∀ b ∈ l, b ≠ a → y b = x b) : (l.map y).sum = (l.map x).sum + (y a - x a) := by
  classical
  have hrest : (l.erase a).map y = (l.erase a).map x := by
    refine List.map_congr_left fun b hb => ?_
    obtain ⟨hne, hb⟩ := hl.mem_erase_iff.mp hb
    exact h b hb hne
  -- both sums are what `a` counts and the sum of the rest
  have hx := List.sum_map_erase x ha
  have hy := List.sum_map_erase y ha
  rw [hrest] at hy
  linarith

theorem Valid.nodup {t : Tables} (h : Valid t) (m : Model) : (t m).Nodup :=
  (h.key m).imp fun hne heq => hne (by rw [heq])

/-- A required `Decimal` column has a number. -/
theorem Valid.decimal {t : Tables} (h : Valid t) {m : Model} {r : Row} (hr : r ∈ t m) {f : Field}
    (hf : f ∈ m.fields) (ht : f.type = .decimal) (hrequired : (f.optional || f.stamp) = false) :
    ∃ q, r f.col = .decimal q ∧ Scaled q := by
  have hadm := h.typed m r hr f hf
  cases hv : r f.col with
  | decimal q =>
      refine ⟨q, rfl, .of_decimal65 ?_⟩
      simpa [Field.admits, ht, hv, Value.hasType] using hadm
  | _ => simp [Field.admits, hrequired, ht, hv, Value.hasType] at hadm

/-! ## What publishing keeps -/

/-- Budgets are for the module of household `H`, and `H` has one for category `c`. -/
structure Tracks (t : Tables) (H c : ℤ) : Prop where
  budget : ∃ r ∈ t .budget, belongs H c r = true
  enabled : ∃ flag ∈ t .featureFlag, flag .householdId = .int H ∧
    flag .moduleName = .string "budgets" ∧ flag .isEnabled = .boolean true

/-- The budgets are the same, up to what they have counted: row by row, every column but
`currentSpent` is as it was, and none is added or lost. -/
def SameBudgets (t t' : Tables) : Prop :=
  ∃ f : Row → Row, t' .budget = (t .budget).map f ∧
    ∀ r ∈ t .budget, ∀ c, c ≠ .currentSpent → f r c = r c

/-- The budgets of `H` for `c` have counted `q` more, all together; the flags are the same,
and so are the budgets themselves. These compose: the numbers add up along a run. -/
structure Counts (H c : ℤ) (q : ℚ) (t t' : Tables) : Prop where
  counted : t'.counted H c = t.counted H c + q
  flags : t' .featureFlag = t .featureFlag
  budgets : SameBudgets t t'

/-- And the transactions are the same. -/
structure CountsOnly (H c : ℤ) (q : ℚ) (t t' : Tables) : Prop extends Counts H c q t t' where
  transactions : t' .transaction = t .transaction

/-- `b` is the only budget of `H` for `c`, so what they have counted together is what it has
counted. -/
def OnlyBudget (H c b : ℤ) (t : Tables) : Prop :=
  ∃ r ∈ t .budget, r .id = .int b ∧ belongs H c r = true ∧
    ∀ s ∈ t .budget, belongs H c s = true → s .id = .int b

section

variable {H c b : ℤ} {t t' t'' : Tables} {f : Row → Row}

theorem belongs_of_kept {r : Row} (hf : ∀ c, c ≠ .currentSpent → f r c = r c) :
    belongs H c (f r) = belongs H c r := by
  unfold belongs
  rw [hf .householdId (by decide), hf .categoryId (by decide)]

theorem SameBudgets.of_eq (h : t' .budget = t .budget) : SameBudgets t t' :=
  ⟨id, by rw [h, List.map_id], fun _ _ _ _ => rfl⟩

theorem SameBudgets.trans (h : SameBudgets t t') (h' : SameBudgets t' t'') : SameBudgets t t'' := by
  obtain ⟨f, hf, hkept⟩ := h
  obtain ⟨f', hf', hkept'⟩ := h'
  refine ⟨f' ∘ f, by rw [hf', hf, List.map_map], fun r hr c hc => ?_⟩
  exact (hkept' (f r) (hf ▸ List.mem_map_of_mem hr) c hc).trans (hkept r hr c hc)

theorem Counts.of_tables (hbudgets : t' .budget = t .budget)
    (hflags : t' .featureFlag = t .featureFlag) : Counts H c 0 t t' where
  counted := by rw [add_zero, Tables.counted, Tables.total, hbudgets, Tables.counted, Tables.total]
  flags := hflags
  budgets := .of_eq hbudgets

theorem Counts.trans {q q' : ℚ} (h : Counts H c q t t') (h' : Counts H c q' t' t'') :
    Counts H c (q + q') t t'' where
  counted := by rw [h'.counted, h.counted, add_assoc]
  flags := h'.flags.trans h.flags
  budgets := h.budgets.trans h'.budgets

theorem CountsOnly.refl (H c : ℤ) (t : Tables) : CountsOnly H c 0 t t where
  toCounts := .of_tables rfl rfl
  transactions := rfl

theorem Tracks.kept (h : Tracks t H c) (hflags : t' .featureFlag = t .featureFlag)
    (hbudgets : SameBudgets t t') : Tracks t' H c where
  budget := by
    obtain ⟨r, hr, hown⟩ := h.budget
    obtain ⟨f, hf, hkept⟩ := hbudgets
    exact ⟨f r, hf ▸ List.mem_map_of_mem hr, by rwa [belongs_of_kept (hkept r hr)]⟩
  enabled := hflags ▸ h.enabled

theorem OnlyBudget.kept (h : OnlyBudget H c b t) (hbudgets : SameBudgets t t') :
    OnlyBudget H c b t' := by
  obtain ⟨r, hr, hid, hown, honly⟩ := h
  obtain ⟨f, hf, hkept⟩ := hbudgets
  refine ⟨f r, hf ▸ List.mem_map_of_mem hr, ?_, by rwa [belongs_of_kept (hkept r hr)], ?_⟩
  · rw [hkept r hr .id (by decide), hid]
  · intro s' hs' hown'
    rw [hf] at hs'
    obtain ⟨s, hs, rfl⟩ := List.mem_map.mp hs'
    rw [hkept s hs .id (by decide)]
    exact honly s hs (by rwa [belongs_of_kept (hkept s hs)] at hown')

/-- The only budget has counted everything. -/
theorem OnlyBudget.currentSpent (h : OnlyBudget H c b t) (hvalid : Valid t) :
    t.currentSpent b = t.counted H c := by
  obtain ⟨r, hr, hid, hown, honly⟩ := h
  have hsum : t.counted H c = (r .currentSpent).rational := by
    have hothers : ∀ s ∈ t .budget, s ≠ r →
        (if belongs H c s then (s .currentSpent).rational else 0) = 0 := by
      intro s hs hne
      refine if_neg fun hown' => hne ?_
      exact hvalid.eq_of_id hs hr ((honly s hs hown').trans hid.symm)
    have hchange := sum_map_change (hvalid.nodup .budget) hr (x := fun _ => 0) hothers
    simpa [Tables.counted, Tables.total, hown] using hchange
  rw [hsum]
  unfold Tables.currentSpent
  cases hfind : (t .budget).find? (hasId (.int b)) with
  | none =>
      have hnone := List.find?_eq_none.mp hfind r hr
      simp [hasId, hid] at hnone
  | some s =>
      have hs : s .id = .int b := by simpa [hasId] using List.find?_some hfind
      rw [hvalid.eq_of_id (List.mem_of_find?_eq_some hfind) hr (hs.trans hid.symm)]
      rfl

end

/-! ## Calls that are answered -/

section

variable (rt : Runtime)

/-- An update of one record does not fail. -/
def succeeds : (c : Call) → Answer c → Bool
  | .update .., .ok _ => true
  | .update .., .error _ => false
  | _, _ => true

/-- What a call may answer and do if the other side can be reached and no `update` fails. The
only ones that these programs make are the listener's, which fail when a total outgrows its
column. -/
inductive Runtime.Answers : Db → (c : Call) → Answer c → Db → Prop
  | answered (db : Db) (c : Call) (hok : succeeds c (rt.answer c db).1 = true) :
      Answers db c (rt.answer c db).1 (rt.answer c db).2
  | found (db : Db) {m : Model} {w : Where} {incl : Include} {hit : Row → Bool} {r : Row}
      (hw : rt.condition m w = some hit) (hr : r ∈ db.rows m) (hhit : hit r = true) :
      Answers db (.findFirst m w incl) (.ok (some (db.rows.entity m incl r))) db
  | fetched (db : Db) {adapter accountId : String} {start stop : Option ℤ}
      (r : Except String (List BankTransaction)) :
      Answers db (.fetchTransactions adapter accountId start stop) r db
  | now (db : Db) (t : ℤ) : Answers db .dateNow t db

end

section

variable {rt : Runtime} {H c : ℤ} {db db' : Db} {m : Model}

theorem Runtime.Answers.exec {call : Call} {r : Answer call} (h : rt.Answers db call r db') :
    rt.Exec db call r db' := by
  cases h with
  | answered => exact .answered _ _
  | found hw hr hhit => exact .found _ hw hr hhit
  | fetched r => exact .fetched _ r
  | now t => exact .now _ t

/-- A `findFirst` fails for its `where` only. -/
theorem Runtime.Answers.findFirst {w : Where} {incl : Include}
    {r : Except PrismaError (Option Entity)} (h : rt.Answers db (.findFirst m w incl) r db')
    {hit : Row → Bool} (hcond : rt.condition m w = some hit) : ∃ found, r = .ok found := by
  cases h with
  | answered =>
      refine ⟨((db.rows m).find? hit).map (db.rows.entity m incl), ?_⟩
      simp only [Runtime.answer, hcond]
  | found hw hr hhit => exact ⟨_, rfl⟩

/-- A budget that has counted `q` more. -/
def counting (q : ℚ) (budget : Row) : Row :=
  Function.update budget .currentSpent (.decimal (numeric ((budget .currentSpent).rational + q)))

theorem counting_of_ne (q : ℚ) (budget : Row) (col : Col) (hcol : col ≠ .currentSpent) :
    counting q budget col = budget col := Function.update_of_ne hcol _ _

/-- It has counted exactly that when the column has the digits for it. -/
theorem counting_rational {budget : Row} (hbudget : budget ∈ db.rows .budget) {q : ℚ}
    (hq : Scaled q) :
    (counting q budget .currentSpent).rational = (budget .currentSpent).rational + q := by
  obtain ⟨a, ha, hscaled⟩ := db.valid.decimal hbudget
    (f := .withDefault .currentSpent .decimal (.decimal 0)) (by simp [Model.fields]) rfl rfl
  have hspent : budget .currentSpent = .decimal a := ha
  rw [counting, Function.update_self, hspent]
  exact numeric_of_scaled (hscaled.add hq)

theorem same_of_hasId {row : Row} (hrow : row ∈ db.rows m) :
    ∀ s ∈ db.rows m, hasId (row .id) s = true → s = row :=
  fun _ hs hid => db.valid.eq_of_id hs hrow (by simpa [hasId] using hid)

/-- What the listener's `data` makes of a budget. -/
theorem ops_counting {budget row' : Row} (hbudget : budget ∈ db.rows .budget) {q : ℚ}
    {ops : List (Col × ScalarOp)}
    (hops : rt.ops .budget (.obj [("currentSpent", .obj [("increment", .num q)])]) = some ops)
    (happly : applyOps ops budget = some row') : row' = counting q budget := by
  obtain ⟨a, ha, -⟩ := db.valid.decimal hbudget
    (f := .withDefault .currentSpent .decimal (.decimal 0)) (by simp [Model.fields]) rfl rfl
  have hspent : budget .currentSpent = .decimal a := ha
  have hone : ops = [(.currentSpent, .arith .increment (.decimal q))] := by
    exact (Option.some.inj hops).symm
  subst hone
  simp only [applyOps, hspent, ScalarOp.apply, Option.bind_some, Option.some.injEq] at happly
  rw [← happly, counting, hspent]
  rfl

/-- One budget counts more, and with it the budgets of its household for its category. -/
theorem CountsOnly.of_counting {budget : Row} (hbudget : budget ∈ db.rows .budget) {q : ℚ}
    (hq : belongs H c budget = true → Scaled q)
    (hrows : db'.rows = db.rows.updated .budget (hasId (budget .id)) fun _ => counting q budget) :
    CountsOnly H c (if belongs H c budget then q else 0) db.rows db'.rows := by
  -- no table refers to budgets, so no other changes
  have hother : ∀ child : Model, child ≠ .budget →
      (∀ fk ∈ child.foreignKeys, fk.target ≠ .budget) → db'.rows child = db.rows child :=
    fun child hchild hrefs => (congrFun hrows child).trans (Tables.updated_other hchild hrefs)
  rw [Tables.updated_of_id fun s hs hid => by
    rw [same_of_hasId hbudget s hs hid, counting_of_ne _ _ _ (by decide)]] at hrows
  have hbudgets := congrFun hrows .budget
  rw [Function.update_self] at hbudgets
  refine ⟨⟨?_, hother _ (by decide) (by decide), _, hbudgets, ?_⟩,
    hother _ (by decide) (by decide)⟩
  · -- of the sum over the budgets one element changes, by `q` if it belongs
    have hsum := sum_map_change (db.valid.nodup .budget) hbudget
      (x := fun r => if belongs H c r then (r .currentSpent).rational else 0)
      (y := (fun r => if belongs H c r then (r .currentSpent).rational else 0) ∘
        fun r => if hasId (budget .id) r = true then counting q budget else r) ?_
    · unfold Tables.counted Tables.total
      rw [hbudgets, List.map_map, hsum]
      have hown : belongs H c (counting q budget) = belongs H c budget :=
        belongs_of_kept (counting_of_ne q budget)
      by_cases hbelongs : belongs H c budget = true
      · simp [hasId, hown, hbelongs, counting_rational hbudget (hq hbelongs)]
      · simp [hasId, hown, hbelongs]
    · intro s hs hne
      have hid : hasId (budget .id) s ≠ true := fun hid => hne (same_of_hasId hbudget s hs hid)
      simp [hid]
  · intro s hs col hcol
    split
    · rename_i hid
      rw [same_of_hasId hbudget s hs hid, counting_of_ne _ _ _ hcol]
    · rfl

/-- The listener's update of a budget. -/
theorem increment_answered {budget : Row} (hbudget : budget ∈ db.rows .budget) {q : ℚ}
    (hq : belongs H c budget = true → Scaled q) {r : Except PrismaError Row}
    (h : rt.Answers db (.update .budget [(.id, (budget .id).toJs)]
      (.obj [("currentSpent", .obj [("increment", .num q)])])) r db') :
    CountsOnly H c (if belongs H c budget then q else 0) db.rows db'.rows := by
  obtain ⟨z, hz, -⟩ := db.valid.id_int hbudget
  -- a call that is answered has succeeded
  obtain ⟨row, rfl⟩ : ∃ row, r = .ok row := by
    cases h with
    | answered _ hok =>
        cases hr : (rt.answer _ db).1 with
        | ok row => exact ⟨row, rfl⟩
        | error e =>
            rw [hr] at hok
            cases hok
  rcases h.exec.update rfl with ⟨e, he, -⟩ | ⟨found, hit, hcond, hfound, hhit, hupd⟩
  · cases he
  · -- the `where` names the budget by its id
    have hid : found .id = .int z := by
      refine Runtime.condition_int hcond hhit (c := .id) ?_ rfl rfl
      rw [hz]
      exact List.mem_singleton_self _
    obtain rfl : found = budget := db.valid.eq_of_id hfound hbudget (hid.trans hz.symm)
    obtain ⟨ops, hops, hall, hrows⟩ := hupd.ops
    refine .of_counting hbudget hq (hrows.trans (Tables.updated_congr fun s hs => ⟨rfl, ?_⟩))
    intro hthis
    obtain rfl := same_of_hasId hbudget s hs hthis
    obtain ⟨row', hrow'⟩ := hall s hs hthis
    rw [hrow', Option.getD_some, ops_counting hbudget hops hrow']

/-! ## Publishing -/

/-- With the module enabled, the flag service says so. -/
theorem isModuleEnabled_answered {k : ℤ} (h : Tracks db.rows H c) :
    (isModuleEnabled k "budgets").Always rt.Answers db fun o db' =>
      db' = db ∧ (k = H → o = .ok true) := by
  obtain ⟨flag, hflag, hhousehold, hmodule, henabled⟩ := h.enabled
  have h4 : int4 H = true := db.valid.int4 hflag (c := .householdId) rfl hhousehold
  have hcond := condition_flag rt H "budgets"
  rw [if_pos h4] at hcond
  intro r db' hfind
  obtain ⟨rfl, hr⟩ := hfind.exec.findFirst
  -- of another household nothing is asked: it may have any flag, and its lookup may fail
  by_cases hk : k = H
  · subst hk
    obtain ⟨found, rfl⟩ := hfind.findFirst hcond
    rcases hr with ⟨e, he⟩ | ⟨hit, hcond', ⟨-, hnone⟩ | ⟨row, hrow, hhit, hfound⟩⟩
    · cases he
    · -- the flag is there, so the query finds one
      have hmiss := hnone flag hflag
      rw [← Option.some.inj (hcond.symm.trans hcond')] at hmiss
      simp [hhousehold, hmodule] at hmiss
    · -- the index makes it the one flag of the household for the module
      rw [← Option.some.inj (hcond.symm.trans hcond')] at hhit
      simp only [Bool.and_eq_true, decide_eq_true_eq] at hhit
      have hsame : row = flag := by
        refine db'.valid.eq_of_unique (u := [.householdId, .moduleName]) (by simp [Model.uniques])
          hrow hflag ?_
        simp [hhit, hhousehold, hmodule]
      cases hfound
      refine ⟨rfl, fun _ => ?_⟩
      simp [Tables.entity, hsame, henabled]
  · cases r with
    | error e => exact ⟨rfl, fun h => absurd h hk⟩
    | ok found =>
        cases found with
        | none => exact ⟨rfl, fun h => absurd h hk⟩
        | some row => exact ⟨rfl, fun h => absurd h hk⟩

/-- The listener's query finds a budget of `H` for `c`. -/
theorem budget_found (h : Tracks db.rows H c) {r : Except PrismaError (Option Entity)}
    (hfind : rt.Answers db
      (.findFirst .budget [(.householdId, .int H), (.categoryId, .int c)] []) r db') :
    ∃ row, r = .ok (some row) := by
  obtain ⟨budget, hbudget, hown⟩ := h.budget
  obtain ⟨hhousehold, hcategory⟩ := belongs_iff.mp hown
  have hH : int4 H = true := db.valid.int4 hbudget (c := .householdId) rfl hhousehold
  have hc : int4 c = true := db.valid.int4 hbudget (c := .categoryId) rfl hcategory
  obtain ⟨hit, hcond, hhit⟩ : ∃ hit, rt.condition .budget
      [(.householdId, .int H), (.categoryId, .int c)] = some hit ∧ hit budget = true :=
    Runtime.condition_ints (w := [(.householdId, H), (.categoryId, c)])
      (by simpa using ⟨⟨_, rfl, rfl⟩, ⟨_, rfl, rfl⟩⟩) (by simp [hhousehold, hcategory, hH, hc])
  obtain ⟨found, rfl⟩ := hfind.findFirst hcond
  obtain ⟨-, ⟨e, he⟩ | ⟨hit', hcond', ⟨-, hnone⟩ | ⟨row, -, -, hrow⟩⟩⟩ := hfind.exec.findFirst
  · cases he
  · have hmiss := hnone budget hbudget
    rw [← Option.some.inj (hcond.symm.trans hcond'), hhit] at hmiss
    cases hmiss
  · exact ⟨_, hrow⟩

/-- Is the event about household `H` and category `c`? -/
def DomainEvent.concerns (event : DomainEvent) (H c : ℤ) : Prop :=
  event.householdId = H ∧ event.categoryId = .int c

instance (event : DomainEvent) (H c : ℤ) : Decidable (event.concerns H c) :=
  inferInstanceAs (Decidable (_ ∧ _))

/-- The event of a new transaction concerns what the transaction belongs to. -/
theorem concerns_created {row : Row} {k : ℤ} (hhousehold : row .householdId = .int k)
    {id accountId : Value} {amount : ℚ} : DomainEvent.concerns
      ⟨transactionCreated, id, k, accountId, row .categoryId, amount⟩ H c ↔
        belongs H c row = true := by
  rw [belongs_iff, hhousehold, Value.int.injEq]
  rfl

/-- The listener adds the amount to a budget of the event's household and category, and to
nothing else. Which of several budgets it is does not matter for their sum. -/
theorem handle_counts {event : DomainEvent}
    (hscaled : event.concerns H c → Scaled event.amount)
    (hcategory : event.categoryId = .null ∨ ∃ z, event.categoryId = .int z) (hc : c ≠ 0)
    (h : Tracks db.rows H c) :
    (TransactionCreatedListener.handle event).Always rt.Answers db fun _ db' =>
      CountsOnly H c (if event.concerns H c then event.amount else 0) db.rows db'.rows := by
  have hskip : ¬ event.concerns H c →
      CountsOnly H c (if event.concerns H c then event.amount else 0) db.rows db.rows := by
    intro hother
    rw [if_neg hother]
    exact .refl H c db.rows
  unfold TransactionCreatedListener.handle
  by_cases htruthy : event.categoryId.toJs.truthy = true
  · rw [if_pos htruthy]
    obtain ⟨z, hz⟩ : ∃ z, event.categoryId = .int z := by
      rcases hcategory with hnull | hint
      · rw [hnull] at htruthy
        cases htruthy
      · exact hint
    refine Prog.Always.bind (awaited_always fun r db' hfind => ?_)
    obtain ⟨rfl, hr⟩ := hfind.exec.findFirst
    have hfound : event.concerns H c → ∃ row, r = .ok (some row) := by
      rintro ⟨hhousehold, hcategory⟩
      rw [hhousehold, hcategory] at hfind
      exact budget_found h hfind
    rcases hr with ⟨e, rfl⟩ | ⟨hit, hcond, ⟨rfl, -⟩ | ⟨row, hrow, hhit, rfl⟩⟩
    · -- the query threw or found nothing: the event is of no budget that `Tracks` knows
      refine hskip fun hconcerns => ?_
      obtain ⟨row, hrow⟩ := hfound hconcerns
      cases hrow
    · refine hskip fun hconcerns => ?_
      obtain ⟨row, hrow⟩ := hfound hconcerns
      cases hrow
    · have hown : belongs H c row = true ↔ event.concerns H c := by
        rw [hz] at hcond
        have hhousehold := Runtime.condition_int hcond hhit (c := .householdId)
          List.mem_cons_self rfl rfl
        have hcategory := Runtime.condition_int hcond hhit (c := .categoryId)
          (List.mem_cons_of_mem _ List.mem_cons_self) rfl rfl
        simp [belongs_iff, DomainEvent.concerns, hhousehold, hcategory, hz]
      -- the update by the id of that budget, which is still the same
      refine Prog.Always.bind (awaited_always fun r db₁ hupdate => ?_)
      have hcounts := increment_answered (H := H) (c := c) hrow
        (fun hbelongs => hscaled (hown.mp hbelongs)) hupdate
      simp only [hown] at hcounts
      cases r with
      | error e => exact hcounts
      | ok _ => exact hcounts
  · -- no category: the listener returns at once
    rw [if_neg htruthy]
    refine hskip fun hconcerns => htruthy ?_
    rw [hconcerns.2]
    simp [Value.toJs, Js.int, Js.truthy, hc]

/-- So does delivering the event to it, whatever becomes of it. -/
theorem deliver_counts {event : DomainEvent} (hscaled : event.concerns H c → Scaled event.amount)
    (hcategory : event.categoryId = .null ∨ ∃ z, event.categoryId = .int z) (hc : c ≠ 0)
    (h : Tracks db.rows H c) :
    (EventBus.deliver event ⟨some "budgets", TransactionCreatedListener.handle⟩).Always
      rt.Answers db fun _ db' =>
        CountsOnly H c (if event.concerns H c then event.amount else 0) db.rows db'.rows := by
  unfold EventBus.deliver
  simp only [show ¬ "budgets" = "" by decide, if_false]
  refine Prog.Always.bind ((isModuleEnabled_answered (k := event.householdId) h).mono ?_)
  rintro o db' ⟨rfl, henabled⟩
  have hskip : o ≠ .ok true →
      CountsOnly H c (if event.concerns H c then event.amount else 0) db'.rows db'.rows := by
    intro hoff
    rw [if_neg fun hconcerns => hoff (henabled hconcerns.1)]
    exact .refl H c db'.rows
  cases o with
  | error e => exact hskip (by simp)
  | ok enabled =>
      cases enabled with
      | false => exact hskip (by simp)
      | true =>
          refine Prog.Always.tryCatch
            ((handle_counts hscaled hcategory hc h).mono fun o _ hcounts => ?_)
          cases o <;> exact hcounts

/-- And publishing it: the listener is the one subscriber. -/
theorem publish_counts {event : DomainEvent} (hname : event.name = transactionCreated)
    (hscaled : event.concerns H c → Scaled event.amount)
    (hcategory : event.categoryId = .null ∨ ∃ z, event.categoryId = .int z) (hc : c ≠ 0)
    (h : Tracks db.rows H c) :
    (budgetsBus.publish event).Always rt.Answers db fun _ db' =>
      CountsOnly H c (if event.concerns H c then event.amount else 0) db.rows db'.rows := by
  have hdeliver := @deliver_counts rt H c db event hscaled hcategory hc h
  unfold EventBus.publish
  rw [subscribers_created hname]
  refine Prog.Always.bind (Prog.Always.bind (hdeliver.mono fun o _ hcounts => ?_))
  cases o with
  | error e => exact hcounts
  | ok _ => exact hcounts

/-! ## The transactions service -/

/-- A new row adds to the total that it belongs to. -/
theorem total_append {t t' : Tables} {row : Row} {col : Col} {q : ℚ}
    (ht : t' m = t m ++ [row]) (hq : row col = .decimal q) :
    t'.total m col H c = t.total m col H c + if belongs H c row then q else 0 := by
  simp [Tables.total, ht, hq, Value.rational]

/-- `Number` gives the amount in `data` back as it is stored. -/
def ExactAmount (rt : Runtime) (data : Js) : Prop :=
  ∀ q, rt.read .decimal (data.get "amount") = some (.decimal q) →
    rt.number (numeric q) = numeric q

/-- The amount of a stored transaction is that of its `data`, rounded. -/
theorem amount_created {data : Js} {new : Row} (h : rt.newRow .transaction [] data = some new) :
    ∃ q, rt.read .decimal (data.get "amount") = some (.decimal q) ∧
      new .amount = .decimal (numeric q) := by
  have hvalue : rt.createValue (.required .amount .decimal) (data.get "amount") =
      some (new .amount) := Runtime.newRow_value h (c := .amount) rfl
  unfold Runtime.createValue at hvalue
  split at hvalue
  · cases hvalue
  · cases hvalue
  · unfold Runtime.readNullable at hvalue
    split at hvalue
    · cases hvalue
    · obtain ⟨v, hread, hstored⟩ := Option.map_eq_some_iff.mp hvalue
      obtain ⟨q, rfl⟩ := Runtime.read_decimal_eq hread
      exact ⟨q, hread, hstored.symm⟩

/-- What `create` adds to the transactions, the budgets count: the row is stored first, and
the event that follows is delivered before the call ends. -/
theorem create_counts {k : ℤ} {data : Js} (hexact : k = H → ExactAmount rt data) (hc : c ≠ 0)
    (h : Tracks db.rows H c) :
    (TransactionsService.create rt budgetsBus k data).Always rt.Answers db fun _ db' =>
      Counts H c (db'.rows.spentOn H c - db.rows.spentOn H c) db.rows db'.rows := by
  have hsame : Counts H c (db.rows.spentOn H c - db.rows.spentOn H c) db.rows db.rows := by
    rw [sub_self]
    exact .of_tables rfl rfl
  unfold TransactionsService.create
  refine Prog.Always.bind (awaited_always fun r db₁ hfind => ?_)
  obtain ⟨rfl, -⟩ := hfind.exec.findFirst
  rcases r with e | _ | account
  · exact hsame
  · exact hsame
  · refine Prog.Always.bind (awaited_always fun r db₂ hcreate => ?_)
    rcases hcreate.exec.create rfl with ⟨e, rfl, hrows⟩ | ⟨new, row, hnew, rfl, hins⟩
    · show Counts H c (db₂.rows.spentOn H c - _) _ db₂.rows
      rw [hrows]
      exact hsame
    · -- the new row as the database gives it back: amount, household, category
      have hmem : row ∈ db₂.rows .transaction := by
        rw [hins.rows, Function.update_self]
        exact List.mem_append_right _ (List.mem_singleton_self _)
      obtain ⟨q, hread, hamount⟩ := amount_created hnew
      have hq : row .amount = .decimal (numeric q) := by rw [hins.cols _ (by decide), hamount]
      have hhousehold : row .householdId = .int k := by
        rw [hins.cols _ (by decide)]
        exact Runtime.newRow_int hnew (c := .householdId) rfl rfl rfl
      have hcategory : row .categoryId = .null ∨ ∃ z, row .categoryId = .int z :=
        db₂.valid.null_or_int hmem (by simp [Model.fields])
      have hother : ∀ m, m ≠ .transaction → db₂.rows m = db₁.rows m := fun m hm => by
        rw [hins.rows, Function.update_of_ne hm]
      have hinserted : Counts H c 0 db₁.rows db₂.rows :=
        .of_tables (hother _ (by decide)) (hother _ (by decide))
      -- for `H` the number that is published is the amount that is stored
      have hnumber : k = H → rt.numberOf (row .amount) = numeric q := fun hk => by
        rw [hq]
        exact hexact hk q hread
      refine Prog.Always.bind ((@publish_counts rt H c db₂ ⟨transactionCreated, row .id, k,
        row .accountId, row .categoryId, rt.numberOf (row .amount)⟩ rfl
          (fun hconcerns => hnumber hconcerns.1 ▸ scaled_numeric q) hcategory hc
          (h.kept hinserted.flags hinserted.budgets)).mono fun o db₃ hpublished => ?_)
      have hcounts := hinserted.trans hpublished.toCounts
      -- the event concerns the budget just when the new row belongs to it
      have hspent : db₃.rows.spentOn H c =
          db₁.rows.spentOn H c + if belongs H c row then numeric q else 0 :=
        total_append (by rw [hpublished.transactions, hins.rows, Function.update_self]) hq
      have hadded : db₃.rows.spentOn H c - db₁.rows.spentOn H c =
          0 + if DomainEvent.concerns ⟨transactionCreated, row .id, k, row .accountId,
            row .categoryId, rt.numberOf (row .amount)⟩ H c then rt.numberOf (row .amount)
              else 0 := by
        rw [hspent, add_sub_cancel_left, zero_add]
        by_cases hconcerns : DomainEvent.concerns ⟨transactionCreated, row .id, k, row .accountId,
            row .categoryId, rt.numberOf (row .amount)⟩ H c
        · rw [if_pos hconcerns, if_pos ((concerns_created hhousehold).mp hconcerns),
            hnumber hconcerns.1]
        · rw [if_neg hconcerns,
            if_neg fun hown => hconcerns ((concerns_created hhousehold).mpr hown)]
      rw [← hadded] at hcounts
      cases o <;> exact hcounts

/-- The tables that the other calls of the service leave alone: a transaction is changed or
removed without a word to the budgets. -/
structure SpendingKept (t t' : Tables) : Prop where
  budgets : t' .budget = t .budget
  flags : t' .featureFlag = t .featureFlag

theorem updateMany_spendingKept {w : Where} {data : Js} :
    (updateMany .transaction w data).Always rt.Answers db fun _ db' =>
      SpendingKept db.rows db'.rows := by
  refine awaited_always fun r db' hexec => ?_
  rcases hexec.exec.updateMany with ⟨e, -, hrows⟩ | ⟨n, hit, -, -, -, hupd⟩
  · rw [hrows]
    exact ⟨rfl, rfl⟩
  · obtain ⟨ops, -, -, hrows⟩ := hupd.ops
    rw [hrows]
    exact ⟨Tables.updated_other (by decide) (by decide),
      Tables.updated_other (by decide) (by decide)⟩

theorem deleteMany_spendingKept {w : Where} :
    (deleteMany .transaction w).Always rt.Answers db fun _ db' =>
      SpendingKept db.rows db'.rows := by
  refine awaited_always fun r db' hexec => ?_
  rcases hexec.exec.deleteMany_filter (by decide) with hrows | ⟨hit, -, hrows⟩
  · rw [hrows]
    exact ⟨rfl, rfl⟩
  · rw [hrows]
    exact ⟨Function.update_of_ne (by decide) _ _, Function.update_of_ne (by decide) _ _⟩

/-- Is it a call of `create`? -/
def CrudOperation.creates : CrudOperation → Bool
  | create _ => true
  | _ => false

/-- The amount that it is given, if it is one, is one that `Number` gives back. -/
def CrudOperation.Exact (rt : Runtime) : CrudOperation → Prop
  | create data => ExactAmount rt data
  | _ => True

/-- What a call adds to the transactions by creating them. -/
def CrudOperation.created (op : CrudOperation) (H c : ℤ) (t t' : Tables) : ℚ :=
  if op.creates then t'.spentOn H c - t.spentOn H c else 0

/-- No other call of the service touches a budget or a flag. -/
theorem CrudOperation.transactions_spendingKept {op : CrudOperation} {k : ℤ}
    (hop : op.creates = false) : (op.transactions rt k).Always rt.Answers db fun _ db' =>
      SpendingKept db.rows db'.rows := by
  cases op with
  | create data => cases hop
  | findAll =>
      refine discard_always (awaited_always fun r db' hexec => ?_)
      rw [hexec.exec.findMany.1]
      exact ⟨rfl, rfl⟩
  | findOne id =>
      refine discard_always (awaited_always fun r db' hexec => ?_)
      rw [hexec.exec.findFirst.1]
      exact ⟨rfl, rfl⟩
  | update id data => exact discard_always updateMany_spendingKept
  | remove id => exact discard_always deleteMany_spendingKept

theorem CrudOperation.transactions_counts {op : CrudOperation} {k : ℤ}
    (hexact : k = H → op.Exact rt) (hc : c ≠ 0) (h : Tracks db.rows H c) :
    (op.transactions rt k).Always rt.Answers db fun _ db' =>
      Counts H c (op.created H c db.rows db'.rows) db.rows db'.rows := by
  by_cases hop : op.creates = true
  · cases op with
    | create data => exact discard_always (create_counts hexact hc h)
    | _ => cases hop
  · refine (transactions_spendingKept (by simpa using hop)).mono fun o db' hkept => ?_
    rw [created, if_neg hop]
    exact .of_tables hkept.budgets hkept.flags

end

/-! ## Runs -/

/-- A call of the transactions service for a household, and the database that it leaves. -/
abbrev TransactionRun : Type := List ((ℤ × CrudOperation) × Db)

section

variable (rt : Runtime)

/-- The calls run one at a time, to their ends, and every database call is answered; how
each call ends, and by what answers, is free. -/
def TransactionRun.From : Db → TransactionRun → Prop
  | _, [] => True
  | db, ((k, op), db') :: run =>
    (∃ o, (op.transactions rt k).Ends rt.Answers db o db') ∧ TransactionRun.From db' run

end

/-- The database after the last call. -/
def TransactionRun.last : Db → TransactionRun → Db
  | db, [] => db
  | _, (_, db') :: run => TransactionRun.last db' run

/-- What the calls of `create` added to the transactions of `H` that are of category `c`. -/
def TransactionRun.created (H c : ℤ) : Db → TransactionRun → ℚ
  | _, [] => 0
  | db, ((_, op), db') :: run =>
    op.created H c db.rows db'.rows + TransactionRun.created H c db' run

/-- The calls that create nothing leave every budget as it is. -/
def TransactionRun.OthersKeep : Db → TransactionRun → Prop
  | _, [] => True
  | db, ((_, op), db') :: run =>
    (op.creates = false → db'.rows .budget = db.rows .budget) ∧ TransactionRun.OthersKeep db' run

section

variable {rt : Runtime} {H c : ℤ} {db : Db}

theorem TransactionRun.othersKeep {run : TransactionRun} (hrun : TransactionRun.From rt db run) :
    TransactionRun.OthersKeep db run := by
  induction run generalizing db with
  | nil => trivial
  | cons step run ih =>
      obtain ⟨⟨k, op⟩, db'⟩ := step
      obtain ⟨⟨o, hends⟩, hrest⟩ := hrun
      refine ⟨fun hop => ?_, ih hrest⟩
      exact (Prog.always_iff.mp (CrudOperation.transactions_spendingKept hop) o db' hends).budgets

theorem TransactionRun.counts (hc : c ≠ 0) {run : TransactionRun} (h : Tracks db.rows H c)
    (hrun : TransactionRun.From rt db run)
    (hexact : ∀ step ∈ run, step.1.1 = H → step.1.2.Exact rt) :
    Counts H c (TransactionRun.created H c db run) db.rows (TransactionRun.last db run).rows := by
  induction run generalizing db with
  | nil => exact .of_tables rfl rfl
  | cons step run ih =>
      obtain ⟨⟨k, op⟩, db'⟩ := step
      obtain ⟨⟨o, hends⟩, hrest⟩ := hrun
      have hstep := Prog.always_iff.mp
        (CrudOperation.transactions_counts (hexact _ List.mem_cons_self) hc h) o db' hends
      exact hstep.trans (ih (h.kept hstep.flags hstep.budgets) hrest
        fun step hmem => hexact step (List.mem_cons_of_mem _ hmem))

/-- **The running total follows the creations.** Over any sequence of calls of the
transactions service, for any households, no call but `create` touches a budget. When
`Number` gives the amounts back that are created for `H`, what the budgets of `H` for `c` have
counted changes by what the calls of `create` added; and so does `currentSpent` of the only
one. -/
theorem spending_tracks_creations (hc : c ≠ 0) (h : Tracks db.rows H c) {run : TransactionRun}
    (hrun : TransactionRun.From rt db run) :
    TransactionRun.OthersKeep db run ∧
      ((∀ step ∈ run, step.1.1 = H → step.1.2.Exact rt) →
        (TransactionRun.last db run).rows.counted H c - db.rows.counted H c =
            TransactionRun.created H c db run ∧
          ∀ b, OnlyBudget H c b db.rows →
            (TransactionRun.last db run).rows.currentSpent b - db.rows.currentSpent b =
              TransactionRun.created H c db run) := by
  refine ⟨TransactionRun.othersKeep hrun, fun hexact => ?_⟩
  have hcounts := TransactionRun.counts hc h hrun hexact
  have hcounted : (TransactionRun.last db run).rows.counted H c - db.rows.counted H c =
      TransactionRun.created H c db run := by
    rw [hcounts.counted, add_sub_cancel_left]
  refine ⟨hcounted, fun b hb => ?_⟩
  rw [hb.currentSpent db.valid, (hb.kept hcounts.budgets).currentSpent (Db.valid _)]
  exact hcounted

end

/-! ### Runs on the seed -/

instance (t : Tables) (H c : ℤ) : Decidable (Tracks t H c) :=
  decidable_of_iff ((∃ r ∈ t .budget, belongs H c r = true) ∧
    ∃ flag ∈ t .featureFlag, flag .householdId = .int H ∧
      flag .moduleName = .string "budgets" ∧ flag .isEnabled = .boolean true)
    ⟨fun ⟨h, h'⟩ => ⟨h, h'⟩, fun h => ⟨h.budget, h.enabled⟩⟩

instance (H c b : ℤ) (t : Tables) : Decidable (OnlyBudget H c b t) :=
  inferInstanceAs (Decidable (∃ r ∈ t .budget, r .id = .int b ∧ belongs H c r = true ∧
    ∀ s ∈ t .budget, belongs H c s = true → s .id = .int b))

/-- The run in which every call is answered. -/
def TransactionRun.replay (rt : Runtime) : Db → List (ℤ × CrudOperation) → TransactionRun
  | _, [] => []
  | db, (k, op) :: ops =>
    let db' := after rt (op.transactions rt k) db
    ((k, op), db') :: TransactionRun.replay rt db' ops

/-- No `update` fails in it. -/
def TransactionRun.allSucceed (rt : Runtime) : Db → List (ℤ × CrudOperation) → Bool
  | _, [] => true
  | db, (k, op) :: ops =>
    ((op.transactions rt k).trace rt.answer db).all (fun ev => succeeds ev.call ev.answer) &&
      TransactionRun.allSucceed rt (after rt (op.transactions rt k) db) ops

theorem TransactionRun.from_replay {rt : Runtime} {db : Db} {ops : List (ℤ × CrudOperation)}
    (h : TransactionRun.allSucceed rt db ops = true) :
    TransactionRun.From rt db (TransactionRun.replay rt db ops) := by
  induction ops generalizing db with
  | nil => trivial
  | cons q ops ih =>
      obtain ⟨hfirst, hrest⟩ := Bool.and_eq_true_iff.mp h
      refine ⟨⟨_, Prog.Ends.of_trace fun ev hev => ?_⟩, ih hrest⟩
      have hok := List.all_eq_true.mp hfirst ev hev
      have hanswer := Prog.of_mem_trace rt.answer hev
      rw [(Prod.mk.inj hanswer).1] at hok ⊢
      rw [(Prod.mk.inj hanswer).2]
      exact .answered _ _ hok

/-- Household 1 makes a category with this id, and budgets for it. -/
def Seed.budgeted (category : ℤ) : ℕ → Db
  | 0 => after Runtime.mayFirst (CategoriesService.create 1
    (.obj [("id", .int category), ("name", .str "Food")])) seeded
  | n + 1 => after Runtime.mayFirst (BudgetsService.create 1
    (.obj [("categoryId", .int category), ("monthlyLimit", .int 100)])) (Seed.budgeted category n)

def purchase (category : ℤ) : ℤ × CrudOperation :=
  (1, .create (.obj [("amount", .int 12), ("description", .str "Lunch"),
    ("date", .str "2026-05-01"), ("accountId", .int 1), ("categoryId", .int category)]))

/-- A purchase, its removal, and another one. -/
def someCalls : List (ℤ × CrudOperation) := [purchase 1, (1, .remove 1), purchase 1]

def someRun : TransactionRun :=
  TransactionRun.replay Runtime.mayFirst (Seed.budgeted 1 1) someCalls

theorem spending_tracks_creations_example :
    OnlyBudget 1 1 1 (Seed.budgeted 1 1).rows ∧
      TransactionRun.created 1 1 (Seed.budgeted 1 1) someRun = 24 ∧
      TransactionRun.OthersKeep (Seed.budgeted 1 1) someRun ∧
      (TransactionRun.last (Seed.budgeted 1 1) someRun).rows.counted 1 1 -
          (Seed.budgeted 1 1).rows.counted 1 1 =
        TransactionRun.created 1 1 (Seed.budgeted 1 1) someRun ∧
      ∀ b, OnlyBudget 1 1 b (Seed.budgeted 1 1).rows →
        (TransactionRun.last (Seed.budgeted 1 1) someRun).rows.currentSpent b -
            (Seed.budgeted 1 1).rows.currentSpent b =
          TransactionRun.created 1 1 (Seed.budgeted 1 1) someRun := by
  have hrun : TransactionRun.From Runtime.mayFirst (Seed.budgeted 1 1) someRun :=
    TransactionRun.from_replay (by decide +kernel)
  obtain ⟨hothers, hcounts⟩ :=
    spending_tracks_creations (H := 1) (c := 1) (by decide) (by decide +kernel) hrun
  refine ⟨by decide +kernel, by decide +kernel, hothers, hcounts fun step _ _ => ?_⟩
  -- in this runtime every amount is a number
  cases step.1.2 with
  | create data => exact fun _ _ => rfl
  | _ => trivial

/-- After these calls budget `b` of household 1 is off from the transactions. -/
structure Drifts (category : ℤ) (budgets : ℕ) (b : ℤ) (ops : List (ℤ × CrudOperation)) : Prop where
  tracks : Tracks (Seed.budgeted category budgets).rows 1 category
  budget : ∃ r ∈ (Seed.budgeted category budgets).rows .budget, r .id = .int b ∧
    belongs 1 category r = true
  types : ∀ q ∈ ops,
    q.2.hasTypes TransactionsService.CreateData TransactionsService.UpdateData = true
  run : TransactionRun.From Runtime.mayFirst (Seed.budgeted category budgets)
    (TransactionRun.replay Runtime.mayFirst (Seed.budgeted category budgets) ops)
  off : let db := Seed.budgeted category budgets
    let db' := TransactionRun.last db (TransactionRun.replay Runtime.mayFirst db ops)
    db'.rows.currentSpent b - db.rows.currentSpent b ≠
      db'.rows.spentOn 1 category - db.rows.spentOn 1 category

/-- **The total drifts** when a transaction is removed or given another amount, when the
household has another budget for the category, and for the category with id 0. -/
theorem spending_drifts :
    Drifts 1 1 1 [purchase 1, (1, .remove 1)] ∧
      Drifts 1 1 1 [purchase 1, (1, .update 1 (.obj [("amount", .int 20)]))] ∧
      Drifts 1 2 2 [purchase 1] ∧ Drifts 0 1 1 [purchase 0] := by
  refine ⟨⟨?_, ?_, ?_, TransactionRun.from_replay ?_, ?_⟩,
    ⟨?_, ?_, ?_, TransactionRun.from_replay ?_, ?_⟩,
    ⟨?_, ?_, ?_, TransactionRun.from_replay ?_, ?_⟩,
    ⟨?_, ?_, ?_, TransactionRun.from_replay ?_, ?_⟩⟩ <;> decide +kernel

end EngineeringLab.FinanceTracker
