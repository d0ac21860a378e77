/-
Ranks in a sorted list, and percentiles.

In a sorted list the entries that meet a downward closed condition come first, so counting
them is the same as looking at one index (`lt_countP_iff`). An `n`-th percentile is a value
with at least `n` percent of the entries at or below it and `100 - n` percent at or above it.
The entry at index `k`, with `k` the rounded down `n` percent of the length less one, always
has enough entries above it. It lacks one below it exactly when `n` percent of the length is
more than `k + 1` and the next entry is larger (`isPercentile_getElem_iff`).

Counting is by `List.countP`, over the sorted list or any permutation of it, so the
statements hold of the recordings in the order in which they came. The two conditions on a
percentile are symmetric: at least so many entries from below, at least so many from above.
A value between two entries can meet both, which is why a percentile need not be unique; the
entry at an index is one if both counts are large enough.
-/
import Mathlib.Algebra.Order.Field.Basic
import Mathlib.Data.List.Count
import Mathlib.Data.List.Sort
import Mathlib.Data.Nat.Cast.Order.Field
import Mathlib.Tactic.Linarith
import Mathlib.Tactic.Ring

set_option autoImplicit false

namespace Rank

section

variable {α : Type*} [LinearOrder α] {l : List α} {k : ℕ} {v : α}

/-- **Counting is looking at an index**, for a downward closed condition: in a sorted list
the entries that meet it come first, so their number tells up to which index it holds. The
induction is on the list. -/
theorem lt_countP_iff {p : α → Bool} (hdown : ∀ a b, a ≤ b → p b = true → p a = true)
    (hs : l.Pairwise (· ≤ ·)) (hk : k < l.length) : k < l.countP p ↔ p l[k] = true := by
  induction l generalizing k with
  | nil => exact absurd hk (Nat.not_lt_zero k)
  | cons a l ih =>
      obtain ⟨hhead, htail⟩ := List.pairwise_cons.mp hs
      by_cases ha : p a = true
      · rw [List.countP_cons_of_pos ha]
        cases k with
        | zero => simp [ha]
        | succ k =>
            have hk' : k < l.length := by simpa using hk
            rw [Nat.succ_lt_succ_iff, ih htail hk', List.getElem_cons_succ]
      · -- nothing after `a` meets the condition
        have hnone : ∀ b ∈ a :: l, ¬ p b = true := by
          intro b hb hpb
          rcases List.mem_cons.mp hb with rfl | hb
          · exact ha hpb
          · exact ha (hdown a b (hhead b hb) hpb)
        rw [List.countP_eq_zero.mpr hnone]
        have hnot := hnone _ (List.getElem_mem hk)
        simp [hnot]

theorem lt_countP_le_iff (hs : l.Pairwise (· ≤ ·)) (hk : k < l.length) :
    k < l.countP (· ≤ v) ↔ l[k] ≤ v := by
  rw [lt_countP_iff _ hs hk, decide_eq_true_eq]
  intro a b hab hb
  rw [decide_eq_true_eq] at hb ⊢
  exact hab.trans hb

theorem lt_countP_lt_iff (hs : l.Pairwise (· ≤ ·)) (hk : k < l.length) :
    k < l.countP (· < v) ↔ l[k] < v := by
  rw [lt_countP_iff _ hs hk, decide_eq_true_eq]
  intro a b hab hb
  rw [decide_eq_true_eq] at hb ⊢
  exact hab.trans_lt hb

theorem countP_ge_add_countP_lt (l : List α) (v : α) :
    l.countP (v ≤ ·) + l.countP (· < v) = l.length := by
  rw [List.length_eq_countP_add_countP (fun a => decide (v ≤ a))]
  congr 1
  apply List.countP_congr
  intro a _
  simp

/-- The entries from index `k` on are at least the one there. -/
theorem length_le_add_countP_ge (hs : l.Pairwise (· ≤ ·)) (hk : k < l.length) :
    l.length ≤ k + l.countP (l[k] ≤ ·) := by
  have hsum := countP_ge_add_countP_lt l l[k]
  have hbelow : ¬ k < l.countP (· < l[k]) := by
    rw [lt_countP_lt_iff hs hk]
    exact lt_irrefl _
  omega

end

/-! ## Entries by rank -/

section

variable {α : Type*} [LinearOrder α] {l l' : List α}

theorem getElem_mono (hs : l.Pairwise (· ≤ ·)) {i j : ℕ} (hij : i ≤ j) (hj : j < l.length) :
    l[i] ≤ l[j] := by
  rcases Nat.lt_or_eq_of_le hij with hlt | rfl
  · exact List.pairwise_iff_getElem.mp hs i j (by omega) hj hlt
  · exact le_refl _

/-- The first entry is the smallest. -/
theorem getElem_zero_le (hs : l.Pairwise (· ≤ ·)) {x : α} (hx : x ∈ l) (h0 : 0 < l.length) :
    l[0] ≤ x := by
  obtain ⟨i, hi, rfl⟩ := List.mem_iff_getElem.mp hx
  exact getElem_mono hs (Nat.zero_le i) hi

/-- The last entry is the largest. -/
theorem le_getElem_last (hs : l.Pairwise (· ≤ ·)) {x : α} (hx : x ∈ l) {k : ℕ}
    (hk : k < l.length) (hlast : l.length ≤ k + 1) : x ≤ l[k] := by
  obtain ⟨i, hi, rfl⟩ := List.mem_iff_getElem.mp hx
  exact getElem_mono hs (by omega) hk

/-- **Sorting forgets the order.** -/
theorem insertionSort_congr (h : l.Perm l') :
    l.insertionSort (· ≤ ·) = l'.insertionSort (· ≤ ·) := by
  have hperm : (l.insertionSort (· ≤ ·)).Perm (l'.insertionSort (· ≤ ·)) :=
    ((List.perm_insertionSort _ l).trans h).trans (List.perm_insertionSort _ l').symm
  exact hperm.eq_of_pairwise' (List.pairwise_insertionSort (· ≤ ·) l)
    (List.pairwise_insertionSort (· ≤ ·) l')

end

/-! ## Percentiles -/

section

variable {α K : Type*} [LinearOrder α] [Field K] [LinearOrder K]

/-- `v` is an `n`-th percentile of the entries. -/
structure IsPercentile (l : List α) (n : K) (v : α) : Prop where
  below : n / 100 * l.length ≤ l.countP (· ≤ v)
  above : (100 - n) / 100 * l.length ≤ l.countP (v ≤ ·)

variable {l l' : List α} {n : K} {v : α}

theorem isPercentile_perm (h : l.Perm l') : IsPercentile l n v ↔ IsPercentile l' n v := by
  constructor
  · rintro ⟨hbelow, habove⟩
    rw [h.length_eq, h.countP_eq] at hbelow habove
    exact ⟨hbelow, habove⟩
  · rintro ⟨hbelow, habove⟩
    rw [← h.length_eq, ← h.countP_eq] at hbelow habove
    exact ⟨hbelow, habove⟩

variable [IsStrictOrderedRing K]

/-- If a percentile is within a threshold, so are that many percent of the entries. -/
theorem IsPercentile.within (h : IsPercentile l n v) {threshold : α} (hle : v ≤ threshold) :
    n / 100 * l.length ≤ l.countP (· ≤ threshold) := by
  have hmono : l.countP (· ≤ v) ≤ l.countP (· ≤ threshold) := by
    apply List.countP_mono_left
    intro a _ ha
    rw [decide_eq_true_eq] at ha ⊢
    exact ha.trans hle
  have hcast : (l.countP (· ≤ v) : K) ≤ l.countP (· ≤ threshold) := by exact_mod_cast hmono
  exact h.below.trans hcast

/-- **The entry at the rounded down rank** is a percentile exactly when enough entries come
up to it, or no value has exactly as many entries at or below it as that rank counts. -/
theorem isPercentile_getElem_iff {k : ℕ} (hs : l.Pairwise (· ≤ ·)) (hk : k < l.length)
    (h0 : 0 ≤ n) (h100 : n ≤ 100) (hlow : (k : K) ≤ (l.length - 1) * n / 100)
    (hhigh : (l.length - 1) * n / 100 < (k : K) + 1) :
    IsPercentile l n l[k] ↔
      n * l.length ≤ 100 * (k + 1) ∨ ∀ v ∈ l, l.countP (· ≤ v) ≠ k + 1 := by
  have hcount : k < l.countP (· ≤ l[k]) := (lt_countP_le_iff hs hk).mpr (le_refl _)
  constructor
  · intro h
    by_cases hfew : n * l.length ≤ 100 * ((k : K) + 1)
    · exact .inl hfew
    · -- one entry more is at most `l[k]`, so it is counted wherever `l[k]` is
      right
      intro v _ hv
      have hmore : k + 1 < l.countP (· ≤ l[k]) := by
        have hbelow := h.below
        have hcast : ((k + 1 : ℕ) : K) < l.countP (· ≤ l[k]) := by
          push_cast
          linarith
        exact_mod_cast hcast
      have hk' : k + 1 < l.length := hmore.trans_le List.countP_le_length
      have hle : l[k + 1] ≤ l[k] := (lt_countP_le_iff hs hk').mp hmore
      have hkv : l[k] ≤ v := (lt_countP_le_iff hs hk).mp (by omega)
      have hcontra := (lt_countP_le_iff hs hk').mpr (hle.trans hkv)
      omega
  · intro h
    constructor
    · rcases h with hfew | hskip
      · have hcast : ((k + 1 : ℕ) : K) ≤ l.countP (· ≤ l[k]) := by exact_mod_cast hcount
        push_cast at hcast
        linarith
      · have hne := hskip _ (List.getElem_mem hk)
        have hmore : k + 2 ≤ l.countP (· ≤ l[k]) := by omega
        have hcast : ((k + 2 : ℕ) : K) ≤ l.countP (· ≤ l[k]) := by exact_mod_cast hmore
        push_cast at hcast
        -- one entry is at least `n` percent of one
        have hsplit : n / 100 * (l.length : K) = (l.length - 1) * n / 100 + n / 100 := by ring
        rw [hsplit]
        linarith
    · -- the entries from `k` on are enough, as `k` was rounded down
      have hge := length_le_add_countP_ge hs hk
      have hcast : (l.length : K) ≤ k + l.countP (l[k] ≤ ·) := by exact_mod_cast hge
      have hsplit : (100 - n) / 100 * (l.length : K) =
          l.length - (l.length - 1) * n / 100 - n / 100 := by ring
      rw [hsplit]
      linarith

/-- The same for a list in any order and its sorted copy. -/
theorem isPercentile_insertionSort_iff {k : ℕ} (hk : k < (l.insertionSort (· ≤ ·)).length)
    (h0 : 0 ≤ n) (h100 : n ≤ 100) (hlow : (k : K) ≤ (l.length - 1) * n / 100)
    (hhigh : (l.length - 1) * n / 100 < (k : K) + 1) :
    IsPercentile l n (l.insertionSort (· ≤ ·))[k] ↔
      n * l.length ≤ 100 * (k + 1) ∨ ∀ v ∈ l, l.countP (· ≤ v) ≠ k + 1 := by
  have hperm : (l.insertionSort (· ≤ ·)).Perm l := List.perm_insertionSort _ _
  rw [← hperm.length_eq] at hlow hhigh
  rw [← isPercentile_perm hperm,
    isPercentile_getElem_iff (List.pairwise_insertionSort (· ≤ ·) l) hk h0 h100 hlow hhigh]
  simp only [hperm.length_eq, hperm.mem_iff, hperm.countP_eq]

end

end Rank
