/-
What a request of one household may do to the tables.

`TenantWrite H names t t'` is one statement that a service makes for household `H`: it
appends a row of `H`, changes rows of `H` without moving them to another household, or
takes rows of `H` away. `names` are the category ids that the request brings with it,
which nothing has looked up. The proofs about isolation and about references split on
these cases and never look at a service again.
-/
import EngineeringLab.FinanceTracker.Database
import Mathlib.Logic.Relation

set_option autoImplicit false

namespace EngineeringLab.FinanceTracker

/-! ## Households and their rows -/

/-- Does the row belong to the household? An assignment belongs to the household of its
role. -/
def Tables.Owns (t : Tables) (householdId : ℤ) : Model → Row → Prop
  | .household, r => r .id = .int householdId
  | .userRoleAssignment, r =>
    ∃ role ∈ t .customRole, role .id = r .roleId ∧ role .householdId = .int householdId
  | _, r => r .householdId = .int householdId

instance (t : Tables) (householdId : ℤ) (m : Model) (r : Row) :
    Decidable (t.Owns householdId m r) := by
  unfold Tables.Owns
  split <;> infer_instance

/-- The rows of every household but `H` are what they were: none has changed, appeared or
gone. -/
def Frame (H : ℤ) (t t' : Tables) : Prop :=
  ∀ h, h ≠ H → ∀ m r, (r ∈ t m ∧ t.Owns h m r) ↔ (r ∈ t' m ∧ t'.Owns h m r)

namespace Frame

variable {H : ℤ} {t t' t'' : Tables} {m : Model}

theorem refl (H : ℤ) (t : Tables) : Frame H t t := fun _ _ _ _ => Iff.rfl

theorem trans (h : Frame H t t') (h' : Frame H t' t'') : Frame H t t'' :=
  fun k hk m r => (h k hk m r).trans (h' k hk m r)

/-- A statement on one table keeps the frame if the rows of the others in it stay. -/
theorem of_table {rows : List Row}
    (h : ∀ k, k ≠ H → ∀ r, t.Owns k m r → (r ∈ rows ↔ r ∈ t m)) :
    Frame H t (Function.update t m rows) := by
  -- who owns a row depends on the table of the roles only, and these stay with their owners
  have howns : ∀ k, k ≠ H → ∀ m' r,
      Tables.Owns (Function.update t m rows) k m' r ↔ t.Owns k m' r := by
    intro k hk m' r
    cases m' with
    | userRoleAssignment =>
        by_cases hm : m = .customRole
        · subst hm
          simp only [Tables.Owns, Function.update_self]
          constructor
          · rintro ⟨role, hrole, hid, hown⟩
            exact ⟨role, (h k hk role hown).mp hrole, hid, hown⟩
          · rintro ⟨role, hrole, hid, hown⟩
            exact ⟨role, (h k hk role hown).mpr hrole, hid, hown⟩
        · simp only [Tables.Owns, Function.update_of_ne (Ne.symm hm)]
    | _ => rfl
  intro k hk m' r
  rw [howns k hk m' r]
  by_cases hm : m' = m
  · subst hm
    rw [Function.update_self]
    exact ⟨fun ⟨hr, hown⟩ => ⟨(h k hk r hown).mpr hr, hown⟩,
      fun ⟨hr, hown⟩ => ⟨(h k hk r hown).mp hr, hown⟩⟩
  · rw [Function.update_of_ne hm]

theorem of_insert {row : Row} (h : ∀ k, t.Owns k m row → k = H) :
    Frame H t (Function.update t m (t m ++ [row])) := by
  refine of_table fun k hk r hown => ?_
  rw [List.mem_append, List.mem_singleton]
  constructor
  · rintro (hr | rfl)
    · exact hr
    · exact absurd (h k hown) hk
  · exact .inl

theorem of_filter {keep : Row → Bool}
    (h : ∀ r ∈ t m, keep r = false → ∀ k, t.Owns k m r → k = H) :
    Frame H t (Function.update t m ((t m).filter keep)) := by
  refine of_table fun k hk r hown => ?_
  rw [List.mem_filter]
  refine ⟨And.left, fun hr => ⟨hr, ?_⟩⟩
  by_contra hkeep
  exact hk (h r hr (by simpa using hkeep) k hown)

/-- A change keeps the frame if it changes rows of `H` only, and leaves them to `H`. -/
theorem of_map {f : Row → Row}
    (h : ∀ r ∈ t m, f r = r ∨ (∀ k, t.Owns k m r → k = H) ∧ ∀ k, t.Owns k m (f r) → k = H) :
    Frame H t (Function.update t m ((t m).map f)) := by
  refine of_table fun k hk r hown => ?_
  rw [List.mem_map]
  constructor
  · rintro ⟨r₀, hr₀, rfl⟩
    rcases h r₀ hr₀ with hsame | ⟨-, hafter⟩
    · rwa [hsame]
    · exact absurd (hafter k hown) hk
  · intro hr
    rcases h r hr with hsame | ⟨hbefore, -⟩
    · exact ⟨r, hr, hsame⟩
    · exact absurd (hbefore k hown) hk

end Frame

/-! ## The statements of a request -/

/-- The models with a household of their own that the services write. -/
def Model.tenant : Model → Bool
  | .user | .customRole | .account | .transaction | .category | .budget => true
  | _ => false

theorem Tables.owns_tenant {t : Tables} {k : ℤ} {m : Model} (hm : m.tenant = true) {r : Row} :
    t.Owns k m r ↔ r .householdId = .int k := by
  cases m <;> first | exact Iff.rfl | cases hm

/-- One statement of a request of household `H`. -/
inductive TenantWrite (H : ℤ) (names : Value → Prop) (t : Tables) : Tables → Prop
  /-- A row of `H`; a transaction is on an account of `H`. -/
  | insert {m : Model} {row : Row} (hm : m.tenant = true) (hrow : row .householdId = .int H)
      (haccount : m = .transaction →
        ∃ a ∈ t .account, a .id = row .accountId ∧ a .householdId = .int H)
      (hcategory : m = .transaction ∨ m = .budget →
        row .categoryId = .null ∨ names (row .categoryId)) :
      TenantWrite H names t (Function.update t m (t m ++ [row]))
  /-- Rows of `H` change, but not whose they are. -/
  | change {m : Model} {f : Row → Row} (hm : m.tenant = true)
      (hf : ∀ r ∈ t m, f r = r ∨ r .householdId = .int H ∧ f r .householdId = .int H ∧
        f r .id = r .id ∧ f r .accountId = r .accountId ∧
          (f r .categoryId = r .categoryId ∨ f r .categoryId = .null ∨ names (f r .categoryId))) :
      TenantWrite H names t (Function.update t m ((t m).map f))
  /-- The household itself gets another name. -/
  | rename {f : Row → Row}
      (hf : ∀ r ∈ t .household, f r = r ∨ r .id = .int H ∧ f r .id = .int H) :
      TenantWrite H names t (Function.update t .household ((t .household).map f))
  /-- Rows of `H` go. -/
  | remove {m : Model} {keep : Row → Bool}
      (hkeep : ∀ r ∈ t m, keep r = false → ∀ k, t.Owns k m r → k = H) :
      TenantWrite H names t (Function.update t m ((t m).filter keep))
  /-- A user gets a role of `H`. -/
  | assign {row : Row} (hrow : ∀ k, t.Owns k .userRoleAssignment row → k = H) :
      TenantWrite H names t
        (Function.update t .userRoleAssignment (t .userRoleAssignment ++ [row]))

/-- The statements of a whole request, each of which commits. -/
abbrev TenantWrites (H : ℤ) (names : Value → Prop) : Tables → Tables → Prop :=
  Relation.ReflTransGen fun t t' => TenantWrite H names t t' ∧ Valid t'

section

variable {H : ℤ} {names : Value → Prop} {t t' : Tables}

theorem int_inj {x y : ℤ} {v : Value} (h : v = .int x) (h' : v = .int y) : y = x := by
  rw [h] at h'
  exact (Value.int.inj h').symm

/-- One statement of `H` leaves the rows of all others alone. -/
theorem TenantWrite.frame (h : TenantWrite H names t t') : Frame H t t' := by
  cases h with
  | insert hm hrow =>
      refine Frame.of_insert fun k hown => ?_
      exact int_inj hrow ((Tables.owns_tenant hm).mp hown)
  | change hm hf =>
      refine Frame.of_map fun r hr => (hf r hr).imp_right fun ⟨hbefore, hafter, _⟩ => ?_
      exact ⟨fun k hown => int_inj hbefore ((Tables.owns_tenant hm).mp hown),
        fun k hown => int_inj hafter ((Tables.owns_tenant hm).mp hown)⟩
  | rename hf =>
      refine Frame.of_map fun r hr => (hf r hr).imp_right fun ⟨hbefore, hafter⟩ => ?_
      exact ⟨fun k hown => int_inj hbefore hown, fun k hown => int_inj hafter hown⟩
  | remove hkeep => exact Frame.of_filter hkeep
  | assign hrow => exact Frame.of_insert hrow

theorem TenantWrites.frame (h : TenantWrites H names t t') : Frame H t t' := by
  induction h with
  | refl => exact .refl H t
  | tail _ hstep ih => exact ih.trans hstep.1.frame

end

end EngineeringLab.FinanceTracker
