/-
Latency percentiles: `Histogram` (`metrics/percentile.go`).

`Percentile(n)` sorts a copy of the latencies and takes the one at index `(len - 1) * n / 100`,
rounded down. Rounding down is one short where `n` percent of the latencies are more than that
index counts: then the answer has `n` percent of the latencies at or below it only if the next
one is no larger (`percentile_defined_iff`). The lengths of the tests are not among these, but
of two latencies the 99th percentile is the smaller one (`p99_too_low`).

`float64` is an exact rational.

A percentile outside of 0 to 100 is an error, and so is one of no data; the code asks in
this order. What remains is a formula of the number of recordings and of `n`, and whether it
gives the percentile depends on the recordings only where several are equal. The condition
of `percentile_defined_iff` is in these terms and can be computed without `Percentile`.
-/
import EngineeringLab.Order.Rank
import Mathlib.Data.List.Sort
import Mathlib.Data.Rat.Floor

set_option autoImplicit false

open Rank

namespace EngineeringLab.Reliability

/-! ## Conversions and texts -/

/-- `int(x)`: the fraction is dropped. -/
def goInt (x : ℚ) : ℤ := if 0 ≤ x then ⌊x⌋ else ⌈x⌉

/-- The nearest integer, and of two the even one. -/
def roundHalfEven (x : ℚ) : ℤ :=
  if x - ⌊x⌋ < 1 / 2 then ⌊x⌋
  else if 1 / 2 < x - ⌊x⌋ then ⌊x⌋ + 1
  else if ⌊x⌋ % 2 = 0 then ⌊x⌋
  else ⌊x⌋ + 1

/-- `fmt.Sprintf("%.{digits}f", x)`. The sign is that of `x`, also when nothing but zeros
is left. -/
def formatFixed (digits : ℕ) (x : ℚ) : String :=
  let scaled := (roundHalfEven (|x| * 10 ^ digits)).toNat
  let fraction := toString (scaled % 10 ^ digits)
  (if x < 0 then "-" else "") ++ toString (scaled / 10 ^ digits) ++
    if digits = 0 then ""
    else "." ++ String.ofList (List.replicate (digits - fraction.length) '0') ++ fraction

/-! ## The histogram -/

/-- `metrics.Histogram`; each method holds the lock for its whole body. -/
structure Histogram where
  latencyRecords : List ℚ
  deriving DecidableEq, Repr

/-- `NewHistogram`. -/
def Histogram.new : Histogram := ⟨[]⟩

/-- `Histogram.Record`. -/
def Histogram.record (h : Histogram) (ms : ℚ) : Histogram := ⟨h.latencyRecords ++ [ms]⟩

/-- `Histogram.Count`. -/
def Histogram.count (h : Histogram) : ℕ := h.latencyRecords.length

/-- How `Percentile` ends without a value: with one of its two errors, or with the run-time
panic of its index expression. -/
inductive PercentileFailure where
  | errNoData
  | invalid (text : String)
  | indexOutOfRange (index : ℤ) (length : ℕ)
  deriving DecidableEq, Repr

/-- `xs[i]`, for an index of type `int`. -/
def sliceAt (xs : List ℚ) (i : ℤ) : Except PercentileFailure ℚ :=
  match if 0 ≤ i then xs[i.toNat]? else none with
  | some x => .ok x
  | none => .error (.indexOutOfRange i xs.length)

/-- `Histogram.Percentile`. -/
def Histogram.percentile (h : Histogram) (n : ℚ) : Except PercentileFailure ℚ :=
  if n < 0 ∨ 100 < n then
    .error (.invalid ("percentile must be between 0 and 100, got " ++ formatFixed 2 n))
  else if h.latencyRecords.length = 0 then .error .errNoData
  else
    let latencyRecordsCopy := h.latencyRecords.insertionSort (· ≤ ·)
    sliceAt latencyRecordsCopy
      (goInt (((latencyRecordsCopy.length - 1 : ℤ) : ℚ) * n / 100))

/-- The histogram after these latencies were recorded, the first one first. -/
def Histogram.recordAll (latencies : List ℚ) : Histogram :=
  latencies.foldl Histogram.record .new

theorem Histogram.foldl_record (h : Histogram) (latencies : List ℚ) :
    (latencies.foldl Histogram.record h).latencyRecords = h.latencyRecords ++ latencies := by
  induction latencies generalizing h with
  | nil => simp
  | cons ms latencies ih =>
      rw [List.foldl_cons, ih, Histogram.record, List.append_assoc, List.singleton_append]

@[simp] theorem Histogram.latencyRecords_recordAll (latencies : List ℚ) :
    (recordAll latencies).latencyRecords = latencies := foldl_record .new latencies

theorem Histogram.recordAll_eq (latencies : List ℚ) : recordAll latencies = ⟨latencies⟩ :=
  congrArg Histogram.mk (latencyRecords_recordAll latencies)

/-! ## The index -/

/-- `n` percent of the length less one, rounded down. -/
def lowerRank (len : ℕ) (n : ℚ) : ℕ := ⌊((len : ℚ) - 1) * n / 100⌋₊

section

variable {len : ℕ} {n : ℚ}

theorem exactRank_nonneg (hlen : 0 < len) (h0 : 0 ≤ n) : 0 ≤ ((len : ℚ) - 1) * n / 100 := by
  have hone : (1 : ℚ) ≤ len := by exact_mod_cast hlen
  have hmul : 0 ≤ ((len : ℚ) - 1) * n := mul_nonneg (by linarith) h0
  linarith

theorem lowerRank_le (hlen : 0 < len) (h0 : 0 ≤ n) :
    (lowerRank len n : ℚ) ≤ ((len : ℚ) - 1) * n / 100 := Nat.floor_le (exactRank_nonneg hlen h0)

theorem lowerRank_lt (hlen : 0 < len) (h0 : 0 ≤ n) (h100 : n ≤ 100) : lowerRank len n < len := by
  have hone : (1 : ℚ) ≤ len := by exact_mod_cast hlen
  have hmul : ((len : ℚ) - 1) * n ≤ ((len : ℚ) - 1) * 100 :=
    mul_le_mul_of_nonneg_left h100 (by linarith)
  have hle := lowerRank_le hlen h0
  have hlt : (lowerRank len n : ℚ) < len := by linarith
  exact_mod_cast hlt

theorem lowerRank_mono {m : ℚ} (hlen : 0 < len) (hnm : n ≤ m) :
    lowerRank len n ≤ lowerRank len m := by
  have hone : (1 : ℚ) ≤ len := by exact_mod_cast hlen
  have hmul : ((len : ℚ) - 1) * n ≤ ((len : ℚ) - 1) * m :=
    mul_le_mul_of_nonneg_left hnm (by linarith)
  exact Nat.floor_mono (by linarith)

theorem lowerRank_zero : lowerRank len 0 = 0 := by
  rw [lowerRank, mul_zero, zero_div, Nat.floor_zero]

theorem lowerRank_hundred (hlen : 0 < len) : lowerRank len 100 = len - 1 := by
  have hexact : ((len : ℚ) - 1) * 100 / 100 = ((len - 1 : ℕ) : ℚ) := by
    rw [Nat.cast_pred hlen]
    ring
  rw [lowerRank, hexact, Nat.floor_natCast]

theorem goInt_index (hlen : 0 < len) (h0 : 0 ≤ n) :
    goInt ((((len : ℤ) - 1 : ℤ) : ℚ) * n / 100) = lowerRank len n := by
  have hnonneg := exactRank_nonneg hlen h0
  push_cast
  rw [goInt, if_pos hnonneg, lowerRank, Int.natCast_floor_eq_floor hnonneg]

theorem sliceAt_natCast {xs : List ℚ} {k : ℕ} (hk : k < xs.length) :
    sliceAt xs k = .ok xs[k] := by
  unfold sliceAt
  rw [if_pos (Int.natCast_nonneg k), Int.toNat_natCast, List.getElem?_eq_getElem hk]

/-- **`Percentile` in range** gives an entry of the sorted copy. -/
theorem percentile_eq {h : Histogram} (hne : h.latencyRecords ≠ []) (h0 : 0 ≤ n) (h100 : n ≤ 100)
    (hk : lowerRank h.latencyRecords.length n <
      (h.latencyRecords.insertionSort (· ≤ ·)).length) :
    h.percentile n = .ok (h.latencyRecords.insertionSort (· ≤ ·))[lowerRank
      h.latencyRecords.length n] := by
  have hlen : 0 < h.latencyRecords.length := List.length_pos_iff.mpr hne
  have hnot : ¬ (n < 0 ∨ 100 < n) := by
    rintro (hlt | hlt)
    · exact absurd hlt (not_lt.mpr h0)
    · exact absurd hlt (not_lt.mpr h100)
  -- neither error, and an index that is there
  unfold Histogram.percentile
  rw [if_neg hnot, if_neg (by omega)]
  dsimp only
  rw [List.length_insertionSort, goInt_index hlen h0, sliceAt_natCast hk]

/-- The order of the latencies plays no part. -/
theorem percentile_congr {latencies latencies' : List ℚ} (h : latencies.Perm latencies') :
    (⟨latencies⟩ : Histogram).percentile n = (⟨latencies'⟩ : Histogram).percentile n := by
  unfold Histogram.percentile
  dsimp only
  rw [h.length_eq, insertionSort_congr h]

theorem percentile_recordAll {latencies : List ℚ} (hne : latencies ≠ []) (h0 : 0 ≤ n)
    (h100 : n ≤ 100) (hk : lowerRank latencies.length n <
      (latencies.insertionSort (· ≤ ·)).length) :
    (Histogram.recordAll latencies).percentile n =
      .ok (latencies.insertionSort (· ≤ ·))[lowerRank latencies.length n] := by
  rw [Histogram.recordAll_eq]
  exact percentile_eq hne h0 h100 hk

end

/-! ## The definition of a percentile -/

/-- Rounding the index down does no harm: `n` percent of the latencies are no more than it
counts, or no latency has exactly as many at or below it as it counts. -/
def RankSuffices (latencies : List ℚ) (n : ℚ) : Prop :=
  n * latencies.length ≤ 100 * (lowerRank latencies.length n + 1) ∨
    ∀ v ∈ latencies, latencies.countP (· ≤ v) ≠ lowerRank latencies.length n + 1

/-- **When `Percentile` gives a percentile.** Its value then being within a threshold means
that `n` percent of the latencies are. The condition compares the number of recordings with
the index that the code takes, and where that is one short, the entry with the next one. -/
theorem percentile_defined_iff {latencies : List ℚ} (hne : latencies ≠ []) {n : ℚ} (h0 : 0 ≤ n)
    (h100 : n ≤ 100) :
    ((∃ v, (Histogram.recordAll latencies).percentile n = .ok v ∧ IsPercentile latencies n v) ↔
      RankSuffices latencies n) ∧
    (RankSuffices latencies n → ∀ v threshold : ℚ,
      (Histogram.recordAll latencies).percentile n = .ok v → v ≤ threshold →
        n / 100 * latencies.length ≤ latencies.countP (· ≤ threshold)) := by
  have hlen : 0 < latencies.length := List.length_pos_iff.mpr hne
  have hk : lowerRank latencies.length n < (latencies.insertionSort (· ≤ ·)).length := by
    rw [List.length_insertionSort]
    exact lowerRank_lt hlen h0 h100
  have hiff := isPercentile_insertionSort_iff hk h0 h100 (lowerRank_le hlen h0)
    (Nat.lt_floor_add_one _)
  rw [RankSuffices, ← hiff, percentile_recordAll hne h0 h100 hk]
  refine ⟨⟨?_, fun hdefined => ⟨_, rfl, hdefined⟩⟩, ?_⟩
  · rintro ⟨v, hv, hdefined⟩
    cases hv
    exact hdefined
  · intro hdefined v threshold hv hle
    cases hv
    exact hdefined.within hle

/-- Of the latencies 10, 20, 30, 40 and 50 the median is the third. -/
theorem percentile_defined_iff_example :
    ∃ v, (Histogram.recordAll [10, 20, 30, 40, 50]).percentile 50 = .ok v ∧
      IsPercentile [10, 20, 30, 40, 50] (50 : ℚ) v := by
  refine (percentile_defined_iff (by simp) (by norm_num) (by norm_num)).1.mpr (.inl ?_)
  decide +kernel

/-- **A 99th percentile that is too low**: of the latencies 10 and 1000 it is 10, so a
threshold of 500 is met by one in two. -/
theorem p99_too_low :
    (Histogram.recordAll [10, 1000]).percentile 99 = .ok 10 ∧
      ¬ IsPercentile [10, 1000] (99 : ℚ) (10 : ℚ) := by
  refine ⟨by decide +kernel, fun h => ?_⟩
  have hbelow := h.below
  have hcount : [(10 : ℚ), 1000].countP (· ≤ 10) = 1 := by decide +kernel
  rw [hcount] at hbelow
  norm_num at hbelow

end EngineeringLab.Reliability
