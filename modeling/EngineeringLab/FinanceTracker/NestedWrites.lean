/-
What a `data` with nested writes can lead to, read off the `data`.

Nested writes take a create or update to every model that relations lead to, at any
depth. A `Policy` says of which `data` a row may be made and which columns no UPDATE may
set. `Policy.allows` follows the `data` the way `perform` does and asks the policy at each
place; what it allows leads to permitted statements only, whatever the database holds
(`Policy.perform_obeys`). A relation between tables that every statement of a call
respects then relates the tables before and after it (`Runtime.Exec.rel`).

`allows` has the recursion of `perform`, the same cases for the verbs of a relation, and the
same bound on the depth; so the proof that what is allowed is obedient is one induction on
that bound, with one lemma for each verb of a relation (`childVerb_obeyed`). What Prisma
refuses makes no statement and needs no permission.

Which policies are of use is a matter of the modules that come after: one keeps the columns
that say whose a row is, and one keeps roles and assignments.
-/
import EngineeringLab.FinanceTracker.Effects

set_option autoImplicit false

open Concurrency

namespace EngineeringLab.FinanceTracker

/-! ## Policies -/

structure Policy where
  /-- May a row of the model be made of this `data`? -/
  makes : Model → Js → Bool
  /-- Is the column one that no UPDATE of the model may set? -/
  locked : Model → Col → Bool

namespace Policy

variable (π : Policy)

/-- Does `data` leave all locked columns alone? -/
def leaves (m : Model) (data : Js) : Bool :=
  m.fields.all fun f => !π.locked m f.col || !(data.get f.col.key).isDefined

section

variable (rec : Bool → Model → List String → Js → Bool)

/-- A to-one relation of a record of `m` that is created or updated. -/
def allowsParent (m : Model) (fk : ForeignKey) (inUpdate : Bool) (js : Js) : Bool :=
  -- a reference in a new row is a matter of `makes`
  let link := !inUpdate || !π.locked m fk.col
  match js with
  | .obj [("create", data)] => link && rec false fk.target [fk.back] data
  | .obj [("connect", _)] => link
  | .obj [("connectOrCreate", arg)] => link && rec false fk.target [fk.back] (arg.get "create")
  | .obj [("update", arg)] =>
    rec true fk.target [fk.back] (if (arg.get "data").isDefined then arg.get "data" else arg)
  | .obj [("upsert", arg)] => link && rec false fk.target [fk.back] (arg.get "create") &&
    rec true fk.target [fk.back] (arg.get "update")
  | .obj [("disconnect", _)] => link
  | _ => true

/-- A verb of a to-many relation. -/
def allowsVerb (child : Model) (fk : ForeignKey) (inUpdate : Bool) (verb : String) (arg : Js) :
    Bool :=
  let link := !π.locked child fk.col
  let hidden := [fk.col.key, fk.field]
  match verb, inUpdate with
  | "create", _ => arg.list.all (rec false child hidden)
  | "createMany", _ =>
    let relations := child.foreignKeys.map (·.field) ++ child.children.map (·.2.back)
    (arg.get "data").list.all (rec false child (hidden ++ relations))
  | "connect", _ => link
  | "connectOrCreate", _ => link && arg.list.all fun a => rec false child hidden (a.get "create")
  | "update", true => arg.list.all fun a => rec true child hidden (a.get "data")
  | "upsert", true => arg.list.all fun a =>
    rec true child hidden (a.get "update") && rec false child hidden (a.get "create")
  | "disconnect", true => link
  | "set", true => link
  | "updateMany", true => arg.list.all fun a => π.leaves child (a.get "data")
  | _, _ => true

def allowsVerbs (child : Model) (fk : ForeignKey) (inUpdate : Bool) : Js → Bool
  | .obj verbs => verbs.all fun v => π.allowsVerb rec child fk inUpdate v.1 v.2
  | _ => true

end

/-- Does everything that is nested in `data`, to the depth, keep to the policy? What
Prisma does not accept does nothing. -/
def allows : ℕ → Bool → Model → List String → Js → Bool
  | 0, _, _, _, _ => true
  | n + 1, inUpdate, m, hidden, data => !m.accepts hidden data ||
    ((if inUpdate then π.leaves m data else π.makes m data) &&
      (m.foreignKeys.all fun fk => π.allowsParent (allows n) m fk inUpdate (data.get fk.field)) &&
      m.children.all fun child =>
        π.allowsVerbs (allows n) child.1 child.2 inUpdate (data.get child.2.back))

end Policy

/-! ## Permitted statements -/

/-- The columns that the write around it gives a new row are references. -/
def Model.Links (m : Model) (links : List (Col × Value)) : Prop :=
  ∀ link ∈ links, ∃ fk ∈ m.foreignKeys, fk.col = link.1

namespace Policy

variable (π : Policy) (rt : Runtime)

/-- A statement that keeps to the policy. -/
def Permits : Sql → Prop
  | .insert m r => ∃ links data, m.Links links ∧ rt.newRow m links data = some r ∧
    π.makes m data = true
  | .update m _ ops => ∀ op ∈ ops, π.locked m op.1 = false
  | _ => True

/-- A program that makes permitted statements only. -/
abbrev Obeyed {α : Type} (p : Nested α) : Prop := p.Obeys (π.Permits rt) fun _ => True

/-- Whatever `allow` allows, `rec` carries out by permitted statements. -/
structure Obedient (rec : Job → Nested Row) (allow : Bool → Model → List String → Js → Bool) :
    Prop where
  create : ∀ m links hidden data, m.Links links → allow false m hidden data = true →
    π.Obeyed rt (rec (.create m links hidden data))
  update : ∀ m row hidden data, allow true m hidden data = true →
    π.Obeyed rt (rec (.update m row hidden data))

variable {π rt} {rec : Job → Nested Row} {allow : Bool → Model → List String → Js → Bool}

theorem sqlUpdate_obeyed {m : Model} {hit : Row → Bool} {ops : List (Col × ScalarOp)}
    (h : ∀ op ∈ ops, π.locked m op.1 = false) : π.Obeyed rt (sqlUpdate m hit ops) :=
  ⟨h, fun r => by cases r <;> trivial⟩

/-- A permitted update leaves the locked columns alone. -/
theorem applyOps_locked {m : Model} {hit : Row → Bool} {ops : List (Col × ScalarOp)}
    (h : π.Permits rt (.update m hit ops)) {r r' : Row} (hr' : applyOps ops r = some r') {c : Col}
    (hlocked : π.locked m c = true) : r' c = r c := by
  refine applyOps_of_not_mem hr' fun op hop heq => ?_
  have hunlocked := h op hop
  rw [heq, hlocked] at hunlocked
  cases hunlocked

theorem sqlDelete_obeyed {m : Model} {hit : Row → Bool} : π.Obeyed rt (sqlDelete m hit) :=
  ⟨trivial, fun r => by cases r <;> trivial⟩

theorem sqlSelect_obeyed {m : Model} {hit : Row → Bool} : π.Obeyed rt (sqlSelect m hit) :=
  ⟨trivial, fun _ => trivial⟩

theorem findUnique?_obeyed {m : Model} {w : Js} : π.Obeyed rt (rt.findUnique? m w) := by
  unfold Runtime.findUnique?
  split
  · trivial
  · exact sqlSelect_obeyed.bind fun _ _ => trivial

theorem findUnique_obeyed {m : Model} {w : Js} : π.Obeyed rt (rt.findUnique m w) := by
  refine Prog.Obeys.bind findUnique?_obeyed fun r _ => ?_
  cases r <;> trivial

/-- A loop all of whose rounds are obedient. -/
theorem each_obeyed {α β : Type} {l : List β} {f : β → Nested α}
    (h : ∀ b ∈ l, π.Obeyed rt (f b)) : π.Obeyed rt (Prog.each l f) :=
  (Prog.Obeys.each h).mono fun _ _ => trivial

/-- The same for its result thrown away. -/
theorem discarded_obeyed {α β : Type} {l : List β} {f : β → Nested α}
    (h : ∀ b ∈ l, π.Obeyed rt (f b)) :
    π.Obeyed rt (Prog.each l f >>= fun _ => (Prog.ret () : Nested Unit)) :=
  (each_obeyed h).bind fun _ _ => trivial

/-- The references that a to-one relation sets: its column, and in an update only if it is
not locked. -/
abbrev Referring (π : Policy) (m : Model) (fk : ForeignKey) (inUpdate : Bool)
    (links : List (Col × Value)) : Prop :=
  ∀ link ∈ links, link.1 = fk.col ∧ (inUpdate = true → π.locked m fk.col = false)

theorem link_iff {m : Model} {fk : ForeignKey} {inUpdate : Bool} :
    (!inUpdate || !π.locked m fk.col) = true ↔ (inUpdate = true → π.locked m fk.col = false) := by
  cases inUpdate <;> simp

theorem referring_one {m : Model} {fk : ForeignKey} {inUpdate : Bool} {v : Value}
    (h : (!inUpdate || !π.locked m fk.col) = true) :
    Referring π m fk inUpdate [(fk.col, v)] := by
  intro link hlink
  rw [List.mem_singleton.mp hlink]
  exact ⟨rfl, link_iff.mp h⟩

theorem parentOfCreate_obeys (hrec : π.Obedient rt rec allow) {m : Model} {fk : ForeignKey}
    {inUpdate : Bool} {js : Js} (h : π.allowsParent allow m fk inUpdate js = true) :
    (rt.parentOfCreate rec fk js).Obeys (π.Permits rt) (Referring π m fk inUpdate) := by
  have hnone : Model.Links fk.target [] := fun _ hlink => by cases hlink
  unfold Runtime.parentOfCreate
  split
  · exact fun link hlink => by cases hlink
  · simp only [allowsParent, Bool.and_eq_true] at h
    exact Prog.Obeys.bind (hrec.create _ _ _ _ hnone h.2) fun p _ => referring_one h.1
  · simp only [allowsParent] at h
    exact Prog.Obeys.bind findUnique_obeyed fun p _ => referring_one h
  · simp only [allowsParent, Bool.and_eq_true] at h
    refine Prog.Obeys.bind findUnique?_obeyed fun p _ => ?_
    cases p with
    | some p => exact referring_one h.1
    | none => exact Prog.Obeys.bind (hrec.create _ _ _ _ hnone h.2) fun p _ => referring_one h.1
  · trivial

theorem parentOfUpdate_obeys (hrec : π.Obedient rt rec allow) {m : Model} {fk : ForeignKey}
    {optional : Bool} {row : Row} {js : Js} (h : π.allowsParent allow m fk true js = true) :
    (rt.parentOfUpdate rec fk optional row js).Obeys (π.Permits rt) (Referring π m fk true) := by
  have hnone : Model.Links fk.target [] := fun _ hlink => by cases hlink
  have hempty : Referring π m fk true [] := fun _ hlink => by cases hlink
  unfold Runtime.parentOfUpdate
  split
  · refine Prog.Obeys.bind sqlSelect_obeyed fun rows _ => ?_
    cases rows with
    | nil => trivial
    | cons p rows => exact Prog.Obeys.bind (hrec.update _ _ _ _ h) fun _ _ => hempty
  · simp only [allowsParent, Bool.and_eq_true] at h
    refine Prog.Obeys.bind sqlSelect_obeyed fun rows _ => ?_
    cases rows with
    | nil => exact Prog.Obeys.bind (hrec.create _ _ _ _ hnone h.1.2) fun _ _ => referring_one h.1.1
    | cons p rows => exact Prog.Obeys.bind (hrec.update _ _ _ _ h.2) fun _ _ => hempty
  · split
    · exact referring_one h
    · trivial
  · split
    · exact Prog.Obeys.bind sqlDelete_obeyed fun _ _ => hempty
    · trivial
  · exact parentOfCreate_obeys hrec h

/-- The operations that `data` stands for are on fields that it has. -/
theorem ops_unlocked {m : Model} {data : Js} {ops : List (Col × ScalarOp)}
    (hops : rt.ops m data = some ops) (h : π.leaves m data = true) :
    ∀ op ∈ ops, π.locked m op.1 = false := by
  intro op hop
  obtain ⟨f, hf, hcol, hdefined⟩ := Runtime.ops_defined hops op hop
  have hleft := List.all_eq_true.mp h f hf
  rw [hcol]
  simpa [hdefined] using hleft

/-! ### The verbs of a to-many relation

A verb creates records that refer to the one around it, sets or clears the reference of records
that are there, changes them, or deletes them. -/

section

variable {child : Model} {fk : ForeignKey} {parent : Value} {inUpdate : Bool} {arg : Js}

/-- A new record refers to the one around it. -/
theorem links_one (hfk : fk ∈ child.foreignKeys) : child.Links [(fk.col, parent)] := by
  intro link hlink
  rw [List.mem_singleton.mp hlink]
  exact ⟨fk, hfk, rfl⟩

/-- Setting the reference, where it is not locked. -/
theorem linked_obeyed (hlink : (!π.locked child fk.col) = true) {hit : Row → Bool} {v : Value} :
    π.Obeyed rt (sqlUpdate child hit [(fk.col, .set v)]) := by
  refine sqlUpdate_obeyed fun op hop => ?_
  rw [List.mem_singleton.mp hop]
  simpa using hlink

/-- Clearing it, where the column takes a null. -/
theorem released_obeyed (hlink : (!π.locked child fk.col) = true) (r : Row) :
    π.Obeyed rt (if ((child.field? fk.col).map (·.optional)).getD false = true then do
      let _ ← sqlUpdate child (hasId (r .id)) [(fk.col, .set .null)]
    else .throw .requiredRelation) := by
  split
  · exact Prog.Obeys.bind (linked_obeyed hlink) fun _ _ => trivial
  · trivial

theorem verbCreate_obeyed (hrec : π.Obedient rt rec allow) (hfk : fk ∈ child.foreignKeys)
    (h : π.allowsVerb allow child fk inUpdate "create" arg = true) :
    π.Obeyed rt (rt.childVerb rec child fk parent inUpdate "create" arg) :=
  discarded_obeyed fun data hdata =>
    hrec.create _ _ _ _ (links_one hfk) (List.all_eq_true.mp h data hdata)

/-- A `createMany` may skip what is there. -/
theorem verbCreateMany_obeyed (hrec : π.Obedient rt rec allow) (hfk : fk ∈ child.foreignKeys)
    (h : π.allowsVerb allow child fk inUpdate "createMany" arg = true) :
    π.Obeyed rt (rt.childVerb rec child fk parent inUpdate "createMany" arg) := by
  refine discarded_obeyed fun data hdata => Prog.Obeys.tryCatch ?_ fun e => ?_
  · exact Prog.Obeys.bind (hrec.create _ _ _ _ (links_one hfk) (List.all_eq_true.mp h data hdata))
      fun _ _ => trivial
  · split <;> trivial

theorem verbConnect_obeyed (rec : Job → Nested Row)
    (h : π.allowsVerb allow child fk inUpdate "connect" arg = true) :
    π.Obeyed rt (rt.childVerb rec child fk parent inUpdate "connect" arg) :=
  discarded_obeyed fun _ _ => Prog.Obeys.bind findUnique_obeyed fun _ _ => linked_obeyed h

/-- A `connectOrCreate` does either, so the policy allows both. -/
theorem verbConnectOrCreate_obeyed (hrec : π.Obedient rt rec allow)
    (hfk : fk ∈ child.foreignKeys)
    (h : π.allowsVerb allow child fk inUpdate "connectOrCreate" arg = true) :
    π.Obeyed rt (rt.childVerb rec child fk parent inUpdate "connectOrCreate" arg) := by
  obtain ⟨hlink, hcreate⟩ := Bool.and_eq_true_iff.mp h
  refine discarded_obeyed fun a ha => Prog.Obeys.bind findUnique?_obeyed fun r _ => ?_
  cases r with
  | some r => exact Prog.Obeys.bind (linked_obeyed hlink) fun _ _ => trivial
  | none =>
      exact Prog.Obeys.bind
        (hrec.create _ _ _ _ (links_one hfk) (List.all_eq_true.mp hcreate a ha))
        fun _ _ => trivial

theorem verbUpdate_obeyed (hrec : π.Obedient rt rec allow)
    (h : π.allowsVerb allow child fk true "update" arg = true) :
    π.Obeyed rt (rt.childVerb rec child fk parent true "update" arg) := by
  refine discarded_obeyed fun a ha => Prog.Obeys.bind findUnique_obeyed fun r _ => ?_
  split
  · exact hrec.update _ _ _ _ (List.all_eq_true.mp h a ha)
  · trivial

theorem verbUpsert_obeyed (hrec : π.Obedient rt rec allow) (hfk : fk ∈ child.foreignKeys)
    (h : π.allowsVerb allow child fk true "upsert" arg = true) :
    π.Obeyed rt (rt.childVerb rec child fk parent true "upsert" arg) := by
  refine discarded_obeyed fun a ha => Prog.Obeys.bind findUnique?_obeyed fun r _ => ?_
  obtain ⟨hupdate, hcreate⟩ := Bool.and_eq_true_iff.mp (List.all_eq_true.mp h a ha)
  split
  · exact hrec.update _ _ _ _ hupdate
  · exact hrec.create _ _ _ _ (links_one hfk) hcreate

/-- The policy is about what is written, so it leaves a delete alone. -/
theorem verbDelete_obeyed (rec : Job → Nested Row) :
    π.Obeyed rt (rt.childVerb rec child fk parent true "delete" arg) := by
  refine discarded_obeyed fun w _ => Prog.Obeys.bind findUnique_obeyed fun r _ => ?_
  split
  · exact sqlDelete_obeyed
  · trivial

theorem verbDisconnect_obeyed (rec : Job → Nested Row)
    (h : π.allowsVerb allow child fk true "disconnect" arg = true) :
    π.Obeyed rt (rt.childVerb rec child fk parent true "disconnect" arg) := by
  refine discarded_obeyed fun w _ => Prog.Obeys.bind findUnique_obeyed fun r _ => ?_
  split
  · exact released_obeyed h r
  · trivial

/-- A `set` releases the others, and then links these. -/
theorem verbSet_obeyed (rec : Job → Nested Row)
    (h : π.allowsVerb allow child fk true "set" arg = true) :
    π.Obeyed rt (rt.childVerb rec child fk parent true "set" arg) := by
  refine Prog.Obeys.bind (each_obeyed fun w _ => findUnique_obeyed) fun targets _ => ?_
  refine Prog.Obeys.bind sqlSelect_obeyed fun rows _ => ?_
  refine Prog.Obeys.bind (each_obeyed fun r _ => released_obeyed h r) fun _ _ => ?_
  exact discarded_obeyed fun t _ => linked_obeyed h

theorem verbUpdateMany_obeyed (rec : Job → Nested Row)
    (h : π.allowsVerb allow child fk true "updateMany" arg = true) :
    π.Obeyed rt (rt.childVerb rec child fk parent true "updateMany" arg) := by
  refine discarded_obeyed fun a ha => ?_
  split
  · rename_i hit ops hhit hops
    split
    · exact sqlUpdate_obeyed (ops_unlocked hops (List.all_eq_true.mp h a ha))
    · trivial
  · trivial

theorem verbDeleteMany_obeyed (rec : Job → Nested Row) :
    π.Obeyed rt (rt.childVerb rec child fk parent true "deleteMany" arg) := by
  refine discarded_obeyed fun w _ => ?_
  split
  · exact sqlDelete_obeyed
  · trivial

/-- Any of them. -/
theorem childVerb_obeyed (hrec : π.Obedient rt rec allow) (hfk : fk ∈ child.foreignKeys)
    {verb : String} (h : π.allowsVerb allow child fk inUpdate verb arg = true) :
    π.Obeyed rt (rt.childVerb rec child fk parent inUpdate verb arg) := by
  unfold Runtime.childVerb
  dsimp only
  split
  · exact verbCreate_obeyed hrec hfk h
  · exact verbCreateMany_obeyed hrec hfk h
  · exact verbConnect_obeyed rec h
  · exact verbConnectOrCreate_obeyed hrec hfk h
  · exact verbUpdate_obeyed hrec h
  · exact verbUpsert_obeyed hrec hfk h
  · exact verbDelete_obeyed rec
  · exact verbDisconnect_obeyed rec h
  · exact verbSet_obeyed rec h
  · exact verbUpdateMany_obeyed rec h
  · exact verbDeleteMany_obeyed rec
  · -- no verb of a to-many relation
    trivial

end

theorem childVerbs_obeyed (hrec : π.Obedient rt rec allow) {child : Model} {fk : ForeignKey}
    (hfk : fk ∈ child.foreignKeys) {parent : Value} {inUpdate : Bool} {js : Js}
    (h : π.allowsVerbs allow child fk inUpdate js = true) :
    π.Obeyed rt (rt.childVerbs rec child fk parent inUpdate js) := by
  unfold Runtime.childVerbs
  split
  · trivial
  · exact discarded_obeyed fun v hv => childVerb_obeyed hrec hfk (List.all_eq_true.mp h v hv)
  · trivial

theorem perform_create {n : ℕ} (hrec : π.Obedient rt (rt.perform n) (π.allows n)) {m : Model}
    {links : List (Col × Value)} {hidden : List String} {data : Js} (hlinks : m.Links links)
    (h : π.allows (n + 1) false m hidden data = true) :
    π.Obeyed rt (rt.perform (n + 1) (.create m links hidden data)) := by
  unfold Runtime.perform
  split
  · rename_i haccepts
    simp only [allows, haccepts, Bool.not_true, Bool.false_or, Bool.false_eq_true, if_false,
      Bool.and_eq_true, List.all_eq_true] at h
    obtain ⟨⟨hmakes, hparents⟩, hchildren⟩ := h
    -- The parents first, for their keys, then the row, then its children.
    refine Prog.Obeys.bind (Prog.Obeys.each fun fk hfk =>
      parentOfCreate_obeys hrec (hparents fk hfk)) fun parents hcols => ?_
    split
    · trivial
    · rename_i r hnew
      have hall : m.Links (links ++ parents.flatten) := by
        intro link hlink
        rcases List.mem_append.mp hlink with hlink | hlink
        · exact hlinks link hlink
        · obtain ⟨ls, hls, hlink⟩ := List.mem_flatten.mp hlink
          obtain ⟨fk, hfk, href⟩ := hcols ls hls
          exact ⟨fk, hfk, (href link hlink).1.symm⟩
      have hinsert : π.Obeyed rt (sqlInsert m r) :=
        ⟨⟨_, _, hall, hnew, hmakes⟩, fun r => by cases r <;> trivial⟩
      refine Prog.Obeys.bind hinsert fun r _ => ?_
      refine Prog.Obeys.bind (each_obeyed fun child hchild => ?_) fun _ _ => trivial
      exact childVerbs_obeyed hrec (Model.mem_children hchild) (hchildren child hchild)
  · trivial

theorem perform_update {n : ℕ} (hrec : π.Obedient rt (rt.perform n) (π.allows n)) {m : Model}
    {row : Row} {hidden : List String} {data : Js}
    (h : π.allows (n + 1) true m hidden data = true) :
    π.Obeyed rt (rt.perform (n + 1) (.update m row hidden data)) := by
  unfold Runtime.perform
  split
  · rename_i haccepts
    simp only [allows, haccepts, Bool.not_true, Bool.false_or, if_true,
      Bool.and_eq_true, List.all_eq_true] at h
    obtain ⟨⟨hleaves, hparents⟩, hchildren⟩ := h
    split
    · trivial
    · rename_i ops hops
      refine Prog.Obeys.bind (Prog.Obeys.each fun fk hfk =>
        parentOfUpdate_obeys hrec (hparents fk hfk)) fun parents hcols => ?_
      refine Prog.Obeys.bind (sqlUpdate_obeyed fun op hop => ?_) fun _ _ => ?_
      · rcases List.mem_append.mp hop with hop | hop
        · exact ops_unlocked hops hleaves op hop
        · obtain ⟨link, hlink, rfl⟩ := List.mem_map.mp hop
          obtain ⟨ls, hls, hlink⟩ := List.mem_flatten.mp hlink
          obtain ⟨fk, hfk, href⟩ := hcols ls hls
          rw [(href link hlink).1]
          exact (href link hlink).2 rfl
      · refine Prog.Obeys.bind (each_obeyed fun child hchild => ?_) fun _ _ => trivial
        exact childVerbs_obeyed hrec (Model.mem_children hchild) (hchildren child hchild)
  · trivial

/-- **What the policy allows is carried out by permitted statements.** -/
theorem perform_obedient (π : Policy) (rt : Runtime) (n : ℕ) :
    π.Obedient rt (rt.perform n) (π.allows n) := by
  induction n with
  | zero => exact ⟨fun _ _ _ _ _ _ => trivial, fun _ _ _ _ _ => trivial⟩
  | succ n ih =>
      exact ⟨fun _ _ _ _ hlinks h => perform_create ih hlinks h,
        fun _ _ _ _ h => perform_update ih h⟩

end Policy

/-! ## The statements of a call -/

section

variable {rt : Runtime} {db db' : Db}

/-- The statements that a call makes of its `data`, as they run on the database. -/
def Runtime.statements (rt : Runtime) : Call → Db → List (Prog.Event Db Sql SqlAnswer)
  | .create m data, db => (rt.createProgram m data).trace Sql.exec db
  | .update m w data, db =>
    (rt.selecting m w fun hit => rt.updateProgram m hit data).trace Sql.exec db
  | .updateMany m w data, db =>
    (rt.selecting m w fun hit => rt.updateManyProgram m hit data).trace Sql.exec db
  | _, _ => []

/-- Does the call write what its `data` says? -/
def Call.hasData : Call → Bool
  | .create .. | .update .. | .updateMany .. => true
  | _ => false

/-- A statement has run as `Sql.exec` says. -/
theorem Runtime.of_mem_statements {c : Call} {ev : Prog.Event Db Sql SqlAnswer}
    (h : ev ∈ rt.statements c db) : (ev.answer, ev.after) = ev.call.exec ev.before := by
  unfold Runtime.statements at h
  split at h
  · exact Prog.of_mem_trace Sql.exec h
  · exact Prog.of_mem_trace Sql.exec h
  · exact Prog.of_mem_trace Sql.exec h
  · cases h

theorem transaction_rel {α : Type} {rel : Tables → Tables → Prop} (hrefl : ∀ t, rel t t)
    (htrans : ∀ {t t' t''}, rel t t' → rel t' t'' → rel t t'') {p : Nested α}
    (h : ∀ ev ∈ p.trace Sql.exec db, rel ev.before.rows ev.after.rows) :
    rel db.rows (transaction p db).2.rows := by
  rcases transaction_cases p db with ⟨e, -, hrows⟩ | ⟨a, -, hrun⟩
  · rw [hrows]
    exact hrefl _
  · have hrel := Prog.run_rel_of_trace Sql.exec (fun s s' : Db => rel s.rows s'.rows)
      (fun s => hrefl s.rows) htrans h
    rwa [hrun] at hrel

/-- What every statement of a call respects holds between the tables before and after it. -/
theorem Runtime.Exec.rel {rel : Tables → Tables → Prop} (hrefl : ∀ t, rel t t)
    (htrans : ∀ {t t' t''}, rel t t' → rel t' t'' → rel t t'') {c : Call} (hc : c.hasData = true)
    (h : ∀ ev ∈ rt.statements c db, rel ev.before.rows ev.after.rows) {r : Answer c}
    (hexec : rt.Exec db c r db') : rel db.rows db'.rows := by
  cases hexec with
  | answered =>
      cases c with
      | create m data => exact transaction_rel hrefl htrans h
      | update m w data => exact transaction_rel hrefl htrans h
      | updateMany m w data => exact transaction_rel hrefl htrans h
      | _ => cases hc
  | unreachable => exact hrefl _
  | found => cases hc
  | fetched => cases hc
  | now => cases hc

namespace Policy

variable {π : Policy} {m : Model} {data : Js}

theorem statements_create (h : π.allows data.depth false m [] data = true) :
    ∀ ev ∈ rt.statements (.create m data) db, π.Permits rt ev.call := by
  intro ev hev
  have hlinks : m.Links [] := fun _ hlink => by cases hlink
  have hobeyed := (π.perform_obedient rt data.depth).create m [] [] data hlinks h
  exact hobeyed.of_mem_trace Sql.exec hev

theorem selecting_obeyed {α : Type} {w : Where} {p : (Row → Bool) → Nested α}
    (h : ∀ hit, π.Obeyed rt (p hit)) : π.Obeyed rt (rt.selecting m w p) := by
  unfold Runtime.selecting
  split
  · exact h _
  · trivial

theorem statements_update {w : Where} (h : π.allows data.depth true m [] data = true) :
    ∀ ev ∈ rt.statements (.update m w data) db, π.Permits rt ev.call := by
  intro ev hev
  have hobeyed : π.Obeyed rt (rt.selecting m w fun hit => rt.updateProgram m hit data) := by
    refine selecting_obeyed fun hit => Prog.Obeys.bind sqlSelect_obeyed fun rows _ => ?_
    cases rows with
    | nil => trivial
    | cons row rows => exact (π.perform_obedient rt data.depth).update m row [] data h
  exact hobeyed.of_mem_trace Sql.exec hev

theorem statements_updateMany {w : Where} (h : π.leaves m data = true) :
    ∀ ev ∈ rt.statements (.updateMany m w data) db, π.Permits rt ev.call := by
  intro ev hev
  have hobeyed : π.Obeyed rt (rt.selecting m w fun hit => rt.updateManyProgram m hit data) := by
    refine selecting_obeyed fun hit => ?_
    unfold Runtime.updateManyProgram
    split
    · rename_i ops hops
      split
      · exact sqlUpdate_obeyed (ops_unlocked hops h)
      · trivial
    · trivial
  exact hobeyed.of_mem_trace Sql.exec hev

/-- Nothing is nested in scalar fields. -/
theorem allows_scalars {n : ℕ} {inUpdate : Bool} (hdata : data.hasOnly m.scalarKeys = true)
    (h : (if inUpdate then π.leaves m data else π.makes m data) = true) :
    π.allows n inUpdate m [] data = true := by
  cases n with
  | zero => rfl
  | succ n =>
      have hparents : (m.foreignKeys.all fun fk =>
          π.allowsParent (π.allows n) m fk inUpdate (data.get fk.field)) = true := by
        refine List.all_eq_true.mpr fun fk hfk => ?_
        rw [Js.get_of_hasOnly hdata (m.relation_not_scalar.1 fk hfk)]
        rfl
      have hchildren : (m.children.all fun child =>
          π.allowsVerbs (π.allows n) child.1 child.2 inUpdate (data.get child.2.back)) = true := by
        refine List.all_eq_true.mpr fun child hchild => ?_
        rw [Js.get_of_hasOnly hdata (m.relation_not_scalar.2 child hchild)]
        rfl
      rw [allows, h, hparents, hchildren]
      simp

end Policy

/-! ## Inserted rows -/

/-- The row that the statement inserted, if it did. -/
def insertedRow : Prog.Event Db Sql SqlAnswer → Option (Model × Row)
  | ⟨_, .insert m _, .ok row, _⟩ => some (m, row)
  | _ => none

/-- Is the value the id of a row that one of the statements inserted? -/
def Inserts (evs : List (Prog.Event Db Sql SqlAnswer)) (m : Model) (v : Value) : Prop :=
  ∃ ev ∈ evs, ∃ row, insertedRow ev = some (m, row) ∧ row .id = v

/-- The policy under which nothing is inserted. -/
def Policy.noInsert : Policy := ⟨fun _ _ => false, fun _ _ => false⟩

theorem not_inserts {evs : List (Prog.Event Db Sql SqlAnswer)}
    (h : ∀ ev ∈ evs, Policy.noInsert.Permits rt ev.call) (m : Model) (v : Value) :
    ¬ Inserts evs m v := by
  rintro ⟨⟨before, c, answer, after⟩, hev, row, hrow, -⟩
  have hpermits := h _ hev
  cases c with
  | insert m r =>
      obtain ⟨links, data, -, -, hmakes⟩ := hpermits
      cases hmakes
  | _ => cases hrow

/-- **What a statement does to the tables**: nothing when it fails. -/
inductive Effect (ev : Prog.Event Db Sql SqlAnswer) : Prop
  | none (h : ev.after.rows = ev.before.rows)
  | insert {m : Model} {new row : Row} (hc : ev.call = .insert m new)
      (hrow : insertedRow ev = some (m, row)) (h : Inserted m new row ev.before ev.after)
  | update {m : Model} {hit : Row → Bool} {ops : List (Col × ScalarOp)}
      (hc : ev.call = .update m hit ops)
      (hops : ∀ r ∈ ev.before.rows m, hit r = true → ∃ r', applyOps ops r = some r')
      (h : ev.after.rows = ev.before.rows.updated m hit fun r => (applyOps ops r).getD r)
  | delete {m : Model} {hit : Row → Bool} (hc : ev.call = .delete m hit)
      (h : ev.after.rows = ev.before.rows.deleted m hit)

theorem effect_of_exec {ev : Prog.Event Db Sql SqlAnswer}
    (h : (ev.answer, ev.after) = ev.call.exec ev.before) : Effect ev := by
  obtain ⟨before, c, answer, after⟩ := ev
  obtain ⟨hanswer, hafter⟩ := Prod.mk.inj h
  dsimp only at hanswer hafter
  cases c with
  | insert m new =>
      cases answer with
      | ok row => exact .insert rfl rfl (hafter ▸ Sql.insert_ok hanswer.symm)
      | error e => exact .none (hafter ▸ Db.insert_error hanswer.symm)
  | select m hit => exact .none (hafter ▸ rfl)
  | update m hit ops =>
      cases answer with
      | ok n =>
          obtain ⟨hops, hrows⟩ := Sql.update_ok hanswer.symm
          exact .update rfl hops (hafter ▸ hrows)
      | error e => exact .none (hafter ▸ Sql.update_error hanswer.symm)
  | delete m hit =>
      cases answer with
      | ok n => exact .delete rfl (hafter ▸ Sql.delete_ok hanswer.symm)
      | error e => exact .none (hafter ▸ Sql.delete_error hanswer.symm)

end

end EngineeringLab.FinanceTracker
