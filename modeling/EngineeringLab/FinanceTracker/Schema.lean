/-
The finance tracker's schema: `prisma/schema.prisma` and the foreign keys of the
migrations, as data.

A row is a function from columns to values, and `.null` in the columns that its model does
not have. Which columns a model has, and of which type, is a table (`Model.fields`), and so
are its relations (`Model.foreignKeys`: the column, the relation field on either side, and
what `ON DELETE` does) and its unique indexes. Every `ON UPDATE` is `CASCADE`.

A `Decimal` is a `DECIMAL(65,30)`: a number with thirty digits behind the point and at most
thirty-five before it (`decimal65`), and what is written to such a column is rounded to one
(`numeric`). The `createdAt` and `updatedAt` columns are there because a request body may
name them, and then they take the value that it gives. The clock by which Prisma fills them
in otherwise is not modelled: nothing reads the time, and `.null` stands for it.
-/
import Mathlib.Data.Fintype.Pi
import Mathlib.Data.Rat.Defs

set_option autoImplicit false

namespace EngineeringLab.FinanceTracker

inductive Model where
  | household | user | customRole | userRoleAssignment | account | transaction | category
  | budget | featureFlag
  deriving DecidableEq, Repr

def Model.all : List Model :=
  [.household, .user, .customRole, .userRoleAssignment, .account, .transaction, .category,
    .budget, .featureFlag]

instance : Fintype Model where
  elems := ⟨Model.all, by decide⟩
  complete m := by cases m <;> decide

/-- The columns of all models. -/
inductive Col where
  | id | name | email | householdId | permissions | userId | roleId | bankName | balance
  | amount | description | date | accountId | categoryId | monthlyLimit | currentSpent
  | moduleName | isEnabled | createdAt | updatedAt
  deriving DecidableEq, Repr

def Col.all : List Col :=
  [.id, .name, .email, .householdId, .permissions, .userId, .roleId, .bankName, .balance,
    .amount, .description, .date, .accountId, .categoryId, .monthlyLimit, .currentSpent,
    .moduleName, .isEnabled, .createdAt, .updatedAt]

instance : Fintype Col where
  elems := ⟨Col.all, by decide⟩
  complete c := by cases c <;> decide

/-- The field name of a column, as the client writes it. -/
def Col.key : Col → String
  | id => "id"
  | name => "name"
  | email => "email"
  | householdId => "householdId"
  | permissions => "permissions"
  | userId => "userId"
  | roleId => "roleId"
  | bankName => "bankName"
  | balance => "balance"
  | amount => "amount"
  | description => "description"
  | date => "date"
  | accountId => "accountId"
  | categoryId => "categoryId"
  | monthlyLimit => "monthlyLimit"
  | currentSpent => "currentSpent"
  | moduleName => "moduleName"
  | isEnabled => "isEnabled"
  | createdAt => "createdAt"
  | updatedAt => "updatedAt"

/-! ## Values and rows -/

/-- A column value. A `DateTime` is in milliseconds, and a `Decimal` is the number itself. -/
inductive Value where
  | null
  | int (z : ℤ)
  | string (s : String)
  | stringList (l : List String)
  | decimal (q : ℚ)
  | dateTime (ms : ℤ)
  | boolean (b : Bool)
  deriving DecidableEq

inductive ScalarType where
  | int | string | stringList | decimal | dateTime | boolean
  deriving DecidableEq, Repr

/-- What fits an `INTEGER` column. -/
def int4 (z : ℤ) : Bool := decide (-2 ^ 31 ≤ z ∧ z < 2 ^ 31)

/-- What fits a `DECIMAL(65,30)` column. -/
def decimal65 (q : ℚ) : Bool :=
  decide ((q * 10 ^ 30).den = 1 ∧ -10 ^ 35 < q ∧ q < 10 ^ 35)

/-- The number that such a column keeps of `q`: the nearest one with thirty digits behind the
point, and of two the one further from zero. -/
def numeric (q : ℚ) : ℚ :=
  if 0 ≤ q then (q * 10 ^ 30 + 1 / 2).floor / 10 ^ 30
  else -((-q * 10 ^ 30 + 1 / 2).floor / 10 ^ 30)

def Value.hasType : Value → ScalarType → Bool
  | .int z, .int => int4 z
  | .string _, .string => true
  | .stringList _, .stringList => true
  | .decimal q, .decimal => decimal65 q
  | .dateTime _, .dateTime => true
  | .boolean _, .boolean => true
  | _, _ => false

abbrev Row := Col → Value

/-- The strings of a `String[]` column. -/
def Value.strings : Value → List String
  | .stringList l => l
  | _ => []

/-! ## The models -/

/-- A scalar field of a model. The default of `id` comes from its sequence, and that of a
stamp from Prisma's clock. -/
structure Field where
  col : Col
  type : ScalarType
  optional : Bool
  default : Option Value
  stamp : Bool

def Field.required (col : Col) (type : ScalarType) : Field := ⟨col, type, false, none, false⟩
def Field.nullable (col : Col) (type : ScalarType) : Field := ⟨col, type, true, none, false⟩
def Field.withDefault (col : Col) (type : ScalarType) (v : Value) : Field :=
  ⟨col, type, false, some v, false⟩

/-- A time that Prisma fills in when `data` does not give it; `.null` is the time it takes. -/
def Field.stamped (col : Col) : Field := ⟨col, .dateTime, false, some .null, true⟩

/-- Can the column hold `v`? -/
def Field.admits (f : Field) (v : Value) : Bool :=
  ((f.optional || f.stamp) && v = .null) || v.hasType f.type

/-- `createdAt` and `updatedAt`, which all models but one have. -/
def stamps : List Field := [.stamped .createdAt, .stamped .updatedAt]

def Model.fields : Model → List Field
  | .household => [.required .id .int, .required .name .string] ++ stamps
  | .user => [.required .id .int, .required .email .string, .required .name .string,
      .required .householdId .int] ++ stamps
  | .customRole => [.required .id .int, .required .name .string, .required .householdId .int,
      .withDefault .permissions .stringList (.stringList [])] ++ stamps
  | .userRoleAssignment => [.required .id .int, .required .userId .int, .required .roleId .int]
  | .account => [.required .id .int, .required .name .string, .nullable .bankName .string,
      .withDefault .balance .decimal (.decimal 0), .required .householdId .int] ++ stamps
  | .transaction => [.required .id .int, .required .amount .decimal,
      .required .description .string, .required .date .dateTime, .required .householdId .int,
      .required .accountId .int, .nullable .categoryId .int] ++ stamps
  | .category => [.required .id .int, .required .name .string, .required .householdId .int] ++
      stamps
  | .budget => [.required .id .int, .required .monthlyLimit .decimal,
      .withDefault .currentSpent .decimal (.decimal 0), .required .householdId .int,
      .required .categoryId .int] ++ stamps
  | .featureFlag => [.required .id .int, .required .householdId .int,
      .required .moduleName .string, .withDefault .isEnabled .boolean (.boolean false)] ++ stamps

def Model.field? (m : Model) (c : Col) : Option Field := m.fields.find? (·.col = c)

inductive OnDelete where
  | restrict | setNull
  deriving DecidableEq, Repr

/-- A foreign key: the relation is called `field` on the referencing side and `back`
on the other. -/
structure ForeignKey where
  col : Col
  target : Model
  field : String
  back : String
  onDelete : OnDelete

def Model.foreignKeys : Model → List ForeignKey
  | .household => []
  | .user => [⟨.householdId, .household, "household", "members", .restrict⟩]
  | .customRole => [⟨.householdId, .household, "household", "customRoles", .restrict⟩]
  | .userRoleAssignment => [⟨.userId, .user, "user", "roleAssignments", .restrict⟩,
      ⟨.roleId, .customRole, "role", "assignments", .restrict⟩]
  | .account => [⟨.householdId, .household, "household", "accounts", .restrict⟩]
  | .transaction => [⟨.householdId, .household, "household", "transactions", .restrict⟩,
      ⟨.accountId, .account, "account", "transactions", .restrict⟩,
      ⟨.categoryId, .category, "category", "transactions", .setNull⟩]
  | .category => [⟨.householdId, .household, "household", "categories", .restrict⟩]
  | .budget => [⟨.householdId, .household, "household", "budgets", .restrict⟩,
      ⟨.categoryId, .category, "category", "budgets", .restrict⟩]
  | .featureFlag => [⟨.householdId, .household, "household", "featureFlags", .restrict⟩]

/-- The unique indexes besides the primary key. -/
def Model.uniques : Model → List (List Col)
  | .user => [[.email]]
  | .customRole => [[.householdId, .name]]
  | .userRoleAssignment => [[.userId, .roleId]]
  | .featureFlag => [[.householdId, .moduleName]]
  | _ => []

/-- The models that reference `m`, each with the foreign key it does it by. -/
def Model.children (m : Model) : List (Model × ForeignKey) :=
  Model.all.flatMap fun child =>
    (child.foreignKeys.filter (·.target = m)).map (child, ·)

/-- The foreign key by which a child references `m`. -/
theorem Model.mem_children {m : Model} {child : Model × ForeignKey} (h : child ∈ m.children) :
    child.2 ∈ child.1.foreignKeys := by
  obtain ⟨c, -, hchild⟩ := List.mem_flatMap.mp h
  obtain ⟨fk, hfk, rfl⟩ := List.mem_map.mp hchild
  exact (List.mem_filter.mp hfk).1

end EngineeringLab.FinanceTracker
