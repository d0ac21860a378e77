/-
The health report: `GetHealth` (`health/checker.go`), with `ErrorTracker`
(`metrics/error_tracker.go`).

`GetHealth` ranges over the map of thresholds, in whatever order Go takes, and writes one
entry for each percentile. The verdict is what the README says it is, in every order
(`health_verdict`). The entries are another matter: they are written under the percentile
rounded to an integer, so 99.9 and 100 share `p100`, and the order decides which of the two
is reported (`p100_flickers`). The report is complete, and the same in every order, exactly when no
two configured percentiles round to the same integer (`report_complete_iff`).

`float64` is an exact rational.

The loop has three exits for an entry: a percentile that is none ends it with an error, a
lack of data is noted and passed over, and a value over its threshold sets the status. A
later entry never takes the status back, and the error rate is looked at after the loop, so
that it has the last word. That the order plays no part is then an induction over the list
of entries (`healthLoop_eq`, `healthLoop_error`).
-/
import EngineeringLab.Reliability.Percentile
import Mathlib.Data.Finset.Card

set_option autoImplicit false

namespace EngineeringLab.Reliability

/-! ## The error tracker -/

/-- `metrics.ErrorTracker`; each method holds the lock for its whole body. -/
structure ErrorTracker where
  totalRequests : ℕ
  errorCount : ℕ
  deriving DecidableEq, Repr

namespace ErrorTracker

/-- `NewErrorTracker`. -/
def new : ErrorTracker := ⟨0, 0⟩

/-- `ErrorTracker.RecordSuccess`. -/
def recordSuccess (t : ErrorTracker) : ErrorTracker :=
  { t with totalRequests := t.totalRequests + 1 }

/-- `ErrorTracker.RecordError`. -/
def recordError (t : ErrorTracker) : ErrorTracker :=
  { t with totalRequests := t.totalRequests + 1, errorCount := t.errorCount + 1 }

/-- `ErrorTracker.ErrorRate`. -/
def errorRate (t : ErrorTracker) : ℚ :=
  if t.totalRequests = 0 then 0 else t.errorCount / t.totalRequests

/-- What a tracker is told of a request. -/
inductive Outcome where
  | success
  | error
  deriving DecidableEq, Repr

/-- The tracker after these requests. -/
def recordAll (outcomes : List Outcome) : ErrorTracker :=
  outcomes.foldl (fun t outcome => match outcome with
    | .success => t.recordSuccess
    | .error => t.recordError) new

theorem recordAll_eq (outcomes : List Outcome) :
    recordAll outcomes = ⟨outcomes.length, outcomes.count .error⟩ := by
  have hfrom : ∀ t : ErrorTracker, outcomes.foldl (fun t outcome => match outcome with
      | .success => t.recordSuccess
      | .error => t.recordError) t =
        ⟨t.totalRequests + outcomes.length, t.errorCount + outcomes.count .error⟩ := by
    induction outcomes with
    | nil => exact fun t => rfl
    | cons outcome outcomes ih =>
        intro t
        rw [List.foldl_cons, ih]
        cases outcome with
        | success => simp [recordSuccess, Nat.add_assoc, Nat.add_comm 1]
        | error => simp [recordError, Nat.add_assoc, Nat.add_comm 1]
  rw [recordAll, hfrom]
  simp [new]

/-- The part of the requests that were errors, and 0 if there were none. -/
theorem errorRate_recordAll (outcomes : List Outcome) :
    (recordAll outcomes).errorRate = (outcomes.count .error : ℚ) / outcomes.length := by
  rw [recordAll_eq, errorRate]
  by_cases hempty : outcomes.length = 0
  · simp [hempty]
  · rw [if_neg hempty]

end ErrorTracker

/-! ## The report -/

/-- `health.HealthConfig`. The thresholds are a map: an entry for each percentile, in no
order. -/
structure HealthConfig where
  thresholds : List (ℚ × ℚ)
  keys : (thresholds.map (·.1)).Nodup
  maxErrorRate : ℚ

/-- A `map[string]string`. -/
abbrev Report : Type := String → Option String

def Report.set (report : Report) (key value : String) : Report :=
  Function.update report key (some value)

/-- How `GetHealth` ends without a report: with its error, or with the panic of a call. -/
inductive HealthFailure where
  | error (text : String)
  | panic (index : ℤ) (length : ℕ)
  deriving DecidableEq, Repr

/-- `percentileKey`. -/
def percentileKey (percentile : ℚ) : String := "p" ++ formatFixed 0 percentile

/-- The loop of `GetHealth`, over the thresholds in some order. -/
def healthLoop (histogram : Histogram) : List (ℚ × ℚ) → Report → Except HealthFailure Report
  | [], health => .ok health
  | (percentile, threshold) :: rest, health =>
    match histogram.percentile percentile with
    | .error .errNoData =>
      healthLoop histogram rest (health.set (percentileKey percentile) "No data")
    | .error (.invalid text) => .error (.error ("failed to calculate percentile: " ++ text))
    | .error (.indexOutOfRange index length) => .error (.panic index length)
    | .ok p =>
      let health := health.set (percentileKey percentile) (formatFixed 2 p ++ "ms")
      healthLoop histogram rest (if threshold < p then health.set "status" "Degraded" else health)

/-- `GetHealth`, `order` being the order in which it gets the thresholds. -/
def GetHealth (cfg : HealthConfig) (order : List (ℚ × ℚ)) (histogram : Histogram)
    (errorTracker : ErrorTracker) : Except HealthFailure Report := do
  let errorRate := errorTracker.errorRate
  let health : Report := fun _ => none
  let health := health.set "error_rate" (formatFixed 2 (errorRate * 100) ++ "%")
  let health := health.set "status" "Healthy"
  let health ← healthLoop histogram order health
  if cfg.maxErrorRate < errorRate then return health.set "status" "Unhealthy"
  return health

/-! ## The keys -/

theorem roundHalfEven_nonneg {x : ℚ} (h : 0 ≤ x) : 0 ≤ roundHalfEven x := by
  have hfloor : 0 ≤ ⌊x⌋ := Int.floor_nonneg.mpr h
  unfold roundHalfEven
  split
  · exact hfloor
  · split
    · omega
    · split <;> omega

theorem percentileKey_eq {p : ℚ} (h : 0 ≤ p) :
    percentileKey p = "p" ++ toString (roundHalfEven p).toNat := by
  unfold percentileKey formatFixed
  rw [abs_of_nonneg h, if_neg (not_lt.mpr h)]
  simp

theorem toString_injective {m n : ℕ} (h : toString m = toString n) : m = n := by
  have hdigits : String.ofList (Nat.toDigits 10 m) = String.ofList (Nat.toDigits 10 n) := by
    rw [← Nat.repr_eq_ofList_toDigits, ← Nat.repr_eq_ofList_toDigits]
    exact h
  have hlist := congrArg String.toList hdigits
  rw [String.toList_ofList, String.toList_ofList] at hlist
  rw [← Nat.ofDigitChars_ten_toDigits (n := m), hlist, Nat.ofDigitChars_ten_toDigits]

/-- **Two percentiles share an entry** exactly when they round to the same integer. -/
theorem percentileKey_eq_iff {p q : ℚ} (hp : 0 ≤ p) (hq : 0 ≤ q) :
    percentileKey p = percentileKey q ↔ roundHalfEven p = roundHalfEven q := by
  have hp' := roundHalfEven_nonneg hp
  have hq' := roundHalfEven_nonneg hq
  rw [percentileKey_eq hp, percentileKey_eq hq]
  constructor
  · intro h
    have hnat := toString_injective (String.append_right_inj _ |>.mp h)
    omega
  · intro h
    rw [h]

theorem percentileKey_ne {p : ℚ} {key : String} (h : key.toList.head? ≠ some 'p') :
    percentileKey p ≠ key := by
  rintro rfl
  exact h (by simp [percentileKey])

theorem percentileKey_ne_status (p : ℚ) : percentileKey p ≠ "status" :=
  percentileKey_ne (by decide)

theorem percentileKey_ne_error_rate (p : ℚ) : percentileKey p ≠ "error_rate" :=
  percentileKey_ne (by decide)

/-! ## One round of the loop -/

/-- What is shown for a percentile. -/
def shown (histogram : Histogram) (percentile : ℚ) : String :=
  match histogram.percentile percentile with
  | .ok p => formatFixed 2 p ++ "ms"
  | .error _ => "No data"

/-- Is the percentile of this entry over its threshold? -/
def exceeds (histogram : Histogram) (x : ℚ × ℚ) : Bool :=
  match histogram.percentile x.1 with
  | .ok p => decide (x.2 < p)
  | .error _ => false

/-- What the loop does for an entry that is in range. -/
def addEntry (histogram : Histogram) (health : Report) (x : ℚ × ℚ) : Report :=
  if exceeds histogram x then
    (health.set (percentileKey x.1) (shown histogram x.1)).set "status" "Degraded"
  else health.set (percentileKey x.1) (shown histogram x.1)

/-- A threshold for a percentile that there is. -/
def InRange (x : ℚ × ℚ) : Prop := 0 ≤ x.1 ∧ x.1 ≤ 100

instance (x : ℚ × ℚ) : Decidable (InRange x) := inferInstanceAs (Decidable (_ ∧ _))

section

variable {histogram : Histogram} {x : ℚ × ℚ} {order order' : List (ℚ × ℚ)} {health : Report}

theorem percentile_invalid (histogram : Histogram) (h : ¬ InRange x) :
    ∃ text, histogram.percentile x.1 = .error (.invalid text) := by
  have hout : x.1 < 0 ∨ 100 < x.1 := by
    by_contra hin
    push Not at hin
    exact h hin
  unfold Histogram.percentile
  rw [if_pos hout]
  exact ⟨_, rfl⟩

theorem percentile_noData (h : InRange x) (hempty : histogram.latencyRecords = []) :
    histogram.percentile x.1 = .error .errNoData := by
  have hnot : ¬ (x.1 < 0 ∨ 100 < x.1) := by
    rintro (hlt | hlt)
    · exact absurd hlt (not_lt.mpr h.1)
    · exact absurd hlt (not_lt.mpr h.2)
  unfold Histogram.percentile
  rw [if_neg hnot, hempty]
  rfl

theorem percentile_ok (h : InRange x) (hne : histogram.latencyRecords ≠ []) :
    ∃ p, histogram.percentile x.1 = .ok p := by
  have hlen : 0 < histogram.latencyRecords.length := List.length_pos_iff.mpr hne
  have hk : lowerRank histogram.latencyRecords.length x.1 <
      (histogram.latencyRecords.insertionSort (· ≤ ·)).length := by
    rw [List.length_insertionSort]
    exact lowerRank_lt hlen h.1 h.2
  exact ⟨_, percentile_eq hne h.1 h.2 hk⟩

theorem exceeds_iff : exceeds histogram x = true ↔
    ∃ p, histogram.percentile x.1 = .ok p ∧ x.2 < p := by
  unfold exceeds
  cases histogram.percentile x.1 with
  | ok p => simp
  | error failure => simp

/-- An invalid percentile ends the loop, whatever is recorded. -/
theorem healthLoop_invalid (h : ¬ InRange x) :
    ∃ text, healthLoop histogram (x :: order) health = .error (.error text) := by
  obtain ⟨text, hp⟩ := percentile_invalid histogram h
  rw [healthLoop, hp]
  exact ⟨_, rfl⟩

/-- One round, with data or without. -/
theorem healthLoop_cons (h : InRange x) :
    healthLoop histogram (x :: order) health =
      healthLoop histogram order (addEntry histogram health x) := by
  obtain ⟨percentile, threshold⟩ := x
  unfold addEntry
  by_cases hempty : histogram.latencyRecords = []
  · have hp := percentile_noData h hempty
    dsimp only at hp
    simp only [healthLoop, exceeds, shown, hp]
    rfl
  · obtain ⟨p, hp⟩ := percentile_ok h hempty
    dsimp only at hp
    simp only [healthLoop, exceeds, shown, hp, decide_eq_true_eq]

/-- **The loop** adds the entries one after the other, if all are in range. -/
theorem healthLoop_eq (histogram : Histogram) (health : Report) (h : ∀ x ∈ order, InRange x) :
    healthLoop histogram order health = .ok (order.foldl (addEntry histogram) health) := by
  induction order generalizing health with
  | nil => rfl
  | cons x order ih =>
      rw [healthLoop_cons (h x List.mem_cons_self), List.foldl_cons]
      exact ih _ fun y hy => h y (List.mem_cons_of_mem _ hy)

/-- **The loop fails** if one of the entries is out of range. The induction is on the order:
the entry is the first, or behind one that is in range and does not end the loop. -/
theorem healthLoop_error (histogram : Histogram) (health : Report)
    (h : ∃ x ∈ order, ¬ InRange x) :
    ∃ text, healthLoop histogram order health = .error (.error text) := by
  induction order generalizing health with
  | nil =>
      obtain ⟨x, hx, -⟩ := h
      cases hx
  | cons x order ih =>
      by_cases hx : InRange x
      · rw [healthLoop_cons hx]
        obtain ⟨y, hy, hout⟩ := h
        refine ih _ ⟨y, ?_, hout⟩
        rcases List.mem_cons.mp hy with rfl | hy
        · exact absurd hx hout
        · exact hy
      · exact healthLoop_invalid hx

/-! ## What the entries say -/

@[simp] theorem Report.set_self (report : Report) (key value : String) :
    report.set key value key = some value := Function.update_self ..

theorem Report.set_of_ne {report : Report} {key value key' : String} (h : key' ≠ key) :
    report.set key value key' = report key' := Function.update_of_ne h ..

theorem addEntry_key : addEntry histogram health x (percentileKey x.1) =
    some (shown histogram x.1) := by
  unfold addEntry
  split
  · rw [Report.set_of_ne (percentileKey_ne_status _), Report.set_self]
  · rw [Report.set_self]

theorem addEntry_status : addEntry histogram health x "status" =
    if exceeds histogram x then some "Degraded" else health "status" := by
  unfold addEntry
  split
  · rw [Report.set_self]
  · rw [Report.set_of_ne (percentileKey_ne_status _).symm]

theorem addEntry_of_ne {key : String} (hstatus : key ≠ "status") (hkey : key ≠ percentileKey x.1) :
    addEntry histogram health x key = health key := by
  unfold addEntry
  split
  · rw [Report.set_of_ne hstatus, Report.set_of_ne hkey]
  · rw [Report.set_of_ne hkey]

/-- The status: no later entry hides one that is over its threshold, as the loop only ever
writes `Degraded`. -/
theorem foldl_status : order.foldl (addEntry histogram) health "status" =
    if ∃ x ∈ order, exceeds histogram x = true then some "Degraded" else health "status" := by
  induction order generalizing health with
  | nil => simp
  | cons x order ih =>
      rw [List.foldl_cons, ih, addEntry_status]
      by_cases hrest : ∃ y ∈ order, exceeds histogram y = true
      · obtain ⟨y, hy, hexceeds⟩ := hrest
        rw [if_pos ⟨y, hy, hexceeds⟩, if_pos ⟨y, List.mem_cons_of_mem _ hy, hexceeds⟩]
      · rw [if_neg hrest]
        by_cases hx : exceeds histogram x = true
        · rw [if_pos hx, if_pos ⟨x, List.mem_cons_self, hx⟩]
        · have hnone : ¬ ∃ y ∈ x :: order, exceeds histogram y = true := by
            rintro ⟨y, hy, hexceeds⟩
            rcases List.mem_cons.mp hy with rfl | hy
            · exact hx hexceeds
            · exact hrest ⟨y, hy, hexceeds⟩
          rw [if_neg hx, if_neg hnone]

/-- Nothing else is written. -/
theorem foldl_of_ne {key : String} (hstatus : key ≠ "status")
    (hkey : ∀ x ∈ order, key ≠ percentileKey x.1) :
    order.foldl (addEntry histogram) health key = health key := by
  induction order generalizing health with
  | nil => rfl
  | cons x order ih =>
      rw [List.foldl_cons, ih fun y hy => hkey y (List.mem_cons_of_mem _ hy),
        addEntry_of_ne hstatus (hkey x List.mem_cons_self)]

end

/-! ## The verdict -/

/-- What `GetHealth` writes before the loop. -/
def initialReport (errorTracker : ErrorTracker) : Report :=
  (Report.set (fun _ => none) "error_rate"
    (formatFixed 2 (errorTracker.errorRate * 100) ++ "%")).set "status" "Healthy"

/-- What it writes after the loop. -/
def override (cfg : HealthConfig) (errorTracker : ErrorTracker) (health : Report) : Report :=
  if cfg.maxErrorRate < errorTracker.errorRate then health.set "status" "Unhealthy" else health

section

variable {cfg : HealthConfig} {order order' : List (ℚ × ℚ)} {histogram : Histogram}
  {errorTracker : ErrorTracker}

theorem inRange_of_perm (horder : order.Perm cfg.thresholds) (h : ∀ x ∈ cfg.thresholds, InRange x) :
    ∀ x ∈ order, InRange x := fun x hx => h x (horder.mem_iff.mp hx)

theorem getHealth_ok (cfg : HealthConfig) (histogram : Histogram) (errorTracker : ErrorTracker)
    (h : ∀ x ∈ order, InRange x) :
    GetHealth cfg order histogram errorTracker = .ok (override cfg errorTracker
      (order.foldl (addEntry histogram) (initialReport errorTracker))) := by
  have hloop := healthLoop_eq histogram (initialReport errorTracker) h
  unfold GetHealth override
  dsimp only
  rw [← initialReport, hloop]
  show (if _ then _ else _) = _
  split <;> rfl

theorem getHealth_error (cfg : HealthConfig) (histogram : Histogram)
    (errorTracker : ErrorTracker) (h : ∃ x ∈ order, ¬ InRange x) :
    ∃ text, GetHealth cfg order histogram errorTracker = .error (.error text) := by
  obtain ⟨text, hloop⟩ := healthLoop_error histogram (initialReport errorTracker) h
  refine ⟨text, ?_⟩
  unfold GetHealth
  dsimp only
  rw [← initialReport, hloop]
  rfl

theorem override_of_ne {health : Report} {key : String} (h : key ≠ "status") :
    override cfg errorTracker health key = health key := by
  unfold override
  split
  · exact Report.set_of_ne h
  · rfl

/-- Some percentile is over its threshold. -/
def OverThreshold (cfg : HealthConfig) (histogram : Histogram) : Prop :=
  histogram.latencyRecords ≠ [] ∧
    ∃ x ∈ cfg.thresholds, ∃ p, histogram.percentile x.1 = .ok p ∧ x.2 < p

/-- The part of the requests that were errors is over its maximum. -/
def OverErrorRate (cfg : HealthConfig) (outcomes : List ErrorTracker.Outcome) : Prop :=
  cfg.maxErrorRate < (outcomes.count .error : ℚ) / outcomes.length

/-- What the README promises: an error for a percentile that is none, and otherwise the
status by the error rate first and the percentiles second. -/
structure HealthVerdict (cfg : HealthConfig) (histogram : Histogram)
    (outcomes : List ErrorTracker.Outcome) (result : Except HealthFailure Report) : Prop where
  error_iff : (∃ text, result = .error (.error text)) ↔
    ∃ x ∈ cfg.thresholds, x.1 < 0 ∨ 100 < x.1
  report : (∀ text, result ≠ .error (.error text)) → ∃ report, result = .ok report ∧
    (report "status" = some "Unhealthy" ↔ OverErrorRate cfg outcomes) ∧
    (report "status" = some "Degraded" ↔
      ¬ OverErrorRate cfg outcomes ∧ OverThreshold cfg histogram) ∧
    (report "status" = some "Healthy" ↔
      ¬ OverErrorRate cfg outcomes ∧ ¬ OverThreshold cfg histogram)

theorem exists_exceeds_iff (horder : order.Perm cfg.thresholds) :
    (∃ x ∈ order, exceeds histogram x = true) ↔ OverThreshold cfg histogram := by
  simp only [exceeds_iff, horder.mem_iff]
  constructor
  · rintro ⟨x, hx, p, hp, hlt⟩
    refine ⟨fun hempty => ?_, x, hx, p, hp, hlt⟩
    -- with no data there is no value
    by_cases hin : InRange x
    · rw [percentile_noData hin hempty] at hp
      cases hp
    · obtain ⟨text, hinvalid⟩ := percentile_invalid histogram hin
      rw [hinvalid] at hp
      cases hp
  · rintro ⟨-, h⟩
    exact h

/-- The status that is reported when all percentiles are in range. -/
theorem override_status (cfg : HealthConfig) (order : List (ℚ × ℚ)) (histogram : Histogram)
    (errorTracker : ErrorTracker) :
    override cfg errorTracker (order.foldl (addEntry histogram) (initialReport errorTracker))
        "status" =
      if cfg.maxErrorRate < errorTracker.errorRate then some "Unhealthy"
      else if ∃ x ∈ order, exceeds histogram x = true then some "Degraded"
      else some "Healthy" := by
  unfold override
  split
  · exact Report.set_self ..
  · rw [foldl_status, initialReport, Report.set_self]

/-- **The verdict follows the README**, in every order of the thresholds, whatever is
recorded, and for every history of successes and errors. A percentile that is none is an
error even where there is no data, and the error rate goes before the percentiles. -/
theorem health_verdict (cfg : HealthConfig) {order : List (ℚ × ℚ)}
    (horder : order.Perm cfg.thresholds) (histogram : Histogram)
    (outcomes : List ErrorTracker.Outcome) :
    HealthVerdict cfg histogram outcomes
      (GetHealth cfg order histogram (.recordAll outcomes)) := by
  have hinvalid : (∃ x ∈ order, ¬ InRange x) ↔ ∃ x ∈ cfg.thresholds, x.1 < 0 ∨ 100 < x.1 := by
    simp only [horder.mem_iff, InRange, not_and_or, not_le]
  have hover : cfg.maxErrorRate < (ErrorTracker.recordAll outcomes).errorRate ↔
      OverErrorRate cfg outcomes := by
    rw [ErrorTracker.errorRate_recordAll]
    rfl
  -- a threshold that is out of range fails, in whichever place it comes
  by_cases hbad : ∃ x ∈ order, ¬ InRange x
  · obtain ⟨text, herror⟩ := getHealth_error cfg histogram (.recordAll outcomes) hbad
    exact ⟨⟨fun _ => hinvalid.mp hbad, fun _ => ⟨text, herror⟩⟩, fun h => absurd herror (h text)⟩
  · have hin : ∀ x ∈ order, InRange x := by
      intro x hx
      by_contra hout
      exact hbad ⟨x, hx, hout⟩
    have hok := getHealth_ok cfg histogram (.recordAll outcomes) hin
    have hstatus := override_status cfg order histogram (.recordAll outcomes)
    refine ⟨⟨?_, fun h => absurd (hinvalid.mpr h) hbad⟩, fun _ => ⟨_, hok, ?_⟩⟩
    · rintro ⟨text, herror⟩
      rw [hok] at herror
      cases herror
    · rw [hstatus]
      -- the error rate is looked at last, and overrides what the loop has found
      by_cases hunhealthy : OverErrorRate cfg outcomes
      · rw [if_pos (hover.mpr hunhealthy)]
        simp [hunhealthy]
      · rw [if_neg (mt hover.mp hunhealthy)]
        by_cases hdegraded : OverThreshold cfg histogram
        · rw [if_pos ((exists_exceeds_iff horder).mpr hdegraded)]
          simp [hunhealthy, hdegraded]
        · rw [if_neg (mt (exists_exceeds_iff horder).mp hdegraded)]
          simp [hunhealthy, hdegraded]

/-- The configuration of `main`. -/
def mainHealth : HealthConfig where
  thresholds := [(50, 100), (95, 300), (99, 500)]
  keys := by decide +kernel
  maxErrorRate := 1 / 2

/-- With `main`'s configuration, a median over its threshold and one error in three: the
status is `Degraded`, in another order than the configuration's too. -/
theorem health_verdict_example :
    ∃ report, GetHealth mainHealth [(99, 500), (50, 100), (95, 300)] (.recordAll [400, 150, 20])
        (.recordAll [.success, .error, .success]) = .ok report ∧
      report "status" = some "Degraded" := by
  have hverdict := health_verdict mainHealth
    (by decide +kernel : [(99, 500), (50, 100), (95, 300)].Perm mainHealth.thresholds)
    (.recordAll [400, 150, 20]) [.success, .error, .success]
  have hrate : ¬ OverErrorRate mainHealth [.success, .error, .success] := by
    unfold OverErrorRate
    decide +kernel
  have hmedian : OverThreshold mainHealth (.recordAll [400, 150, 20]) :=
    ⟨by decide +kernel, (50, 100), by decide +kernel, 150, by decide +kernel, by decide +kernel⟩
  have hinRange : ¬ ∃ x ∈ mainHealth.thresholds, x.1 < 0 ∨ 100 < x.1 := by decide +kernel
  obtain ⟨report, hreport, -, hdegraded, -⟩ :=
    hverdict.report fun text herror => hinRange (hverdict.error_iff.mp ⟨text, herror⟩)
  exact ⟨report, hreport, hdegraded.mpr ⟨hrate, hmedian⟩⟩

/-! ## The entries -/

/-- The same report in every order, with an entry of its own for every percentile. -/
structure CompleteReport (cfg : HealthConfig) (histogram : Histogram)
    (errorTracker : ErrorTracker) : Prop where
  orderFree : ∀ order order', order.Perm cfg.thresholds → order'.Perm cfg.thresholds →
    GetHealth cfg order histogram errorTracker = GetHealth cfg order' histogram errorTracker
  entries : ∀ order, order.Perm cfg.thresholds → ∃ report,
    GetHealth cfg order histogram errorTracker = .ok report ∧
    ∃ key : ℚ → String,
      (∀ x ∈ cfg.thresholds, ∀ y ∈ cfg.thresholds, key x.1 = key y.1 → x.1 = y.1) ∧
      ∀ x ∈ cfg.thresholds, key x.1 ≠ "status" ∧ key x.1 ≠ "error_rate" ∧
        report (key x.1) = some (shown histogram x.1)

/-- No two configured percentiles round to the same integer. -/
def DistinctRounded (cfg : HealthConfig) : Prop :=
  ∀ x ∈ cfg.thresholds, ∀ y ∈ cfg.thresholds,
    roundHalfEven x.1 = roundHalfEven y.1 → x.1 = y.1

instance (cfg : HealthConfig) : Decidable (DistinctRounded cfg) :=
  inferInstanceAs (Decidable (∀ x ∈ cfg.thresholds, ∀ y ∈ cfg.thresholds, _))

/-- Entries under different keys can change places. -/
theorem addEntry_comm {x y : ℚ × ℚ} (h : percentileKey x.1 ≠ percentileKey y.1)
    (health : Report) :
    addEntry histogram (addEntry histogram health x) y =
      addEntry histogram (addEntry histogram health y) x := by
  funext key
  by_cases hstatus : key = "status"
  · subst hstatus
    simp only [addEntry_status]
    split <;> split <;> rfl
  · by_cases hx : key = percentileKey x.1
    · subst hx
      rw [addEntry_key, addEntry_of_ne hstatus h, addEntry_key]
    · by_cases hy : key = percentileKey y.1
      · subst hy
        rw [addEntry_key, addEntry_of_ne hstatus h.symm, addEntry_key]
      · rw [addEntry_of_ne hstatus hy, addEntry_of_ne hstatus hx, addEntry_of_ne hstatus hx,
          addEntry_of_ne hstatus hy]

/-- An entry of the map is known by its percentile. -/
theorem eq_of_key {x y : ℚ × ℚ} (hx : x ∈ cfg.thresholds) (hy : y ∈ cfg.thresholds)
    (h : x.1 = y.1) : x = y := List.inj_on_of_nodup_map cfg.keys hx hy h

section

variable (hin : ∀ x ∈ cfg.thresholds, InRange x) (hdistinct : DistinctRounded cfg)

include hin hdistinct in
theorem keys_distinct {x y : ℚ × ℚ} (hx : x ∈ cfg.thresholds) (hy : y ∈ cfg.thresholds)
    (h : percentileKey x.1 = percentileKey y.1) : x.1 = y.1 :=
  hdistinct x hx y hy ((percentileKey_eq_iff (hin x hx).1 (hin y hy).1).mp h)

include hin hdistinct in
/-- The order plays no part. -/
theorem foldl_perm (horder : order.Perm cfg.thresholds) (horder' : order'.Perm cfg.thresholds)
    (health : Report) :
    order.foldl (addEntry histogram) health = order'.foldl (addEntry histogram) health := by
  refine (horder.trans horder'.symm).foldl_eq' (fun x hx y hy health => ?_) health
  by_cases hxy : x = y
  · rw [hxy]
  · refine addEntry_comm (fun hkey => hxy ?_) health
    have hx' := horder.mem_iff.mp hx
    have hy' := horder.mem_iff.mp hy
    exact eq_of_key hx' hy' (keys_distinct hin hdistinct hx' hy' hkey)

include hin hdistinct in
/-- Every percentile has its value in the report. -/
theorem foldl_key (horder : order.Perm cfg.thresholds) {x : ℚ × ℚ} (hx : x ∈ cfg.thresholds)
    (health : Report) :
    order.foldl (addEntry histogram) health (percentileKey x.1) =
      some (shown histogram x.1) := by
  -- the order does not matter, so the entry may as well come last
  obtain ⟨before, after, hsplit⟩ := List.append_of_mem (horder.mem_iff.mpr hx)
  have hlast : (before ++ after ++ [x]).Perm cfg.thresholds := by
    refine (List.Perm.trans ?_ horder)
    rw [hsplit]
    exact (List.perm_append_singleton x (before ++ after)).trans List.perm_middle.symm
  rw [foldl_perm hin hdistinct horder hlast, List.foldl_append, List.foldl_cons, List.foldl_nil,
    addEntry_key]

end

/-- Only the status, the error rate and the keys of the percentiles are in the report. -/
theorem key_of_report {report : Report} (hin : ∀ x ∈ order, InRange x)
    (hreport : GetHealth cfg order histogram errorTracker = .ok report) {key value : String}
    (hstatus : key ≠ "status") (hrate : key ≠ "error_rate") (hkey : report key = some value) :
    ∃ x ∈ order, key = percentileKey x.1 := by
  rw [getHealth_ok cfg histogram errorTracker hin] at hreport
  cases hreport
  by_contra hnone
  push Not at hnone
  rw [override_of_ne hstatus, foldl_of_ne hstatus hnone, initialReport,
    Report.set_of_ne hstatus, Report.set_of_ne hrate] at hkey
  cases hkey

/-- **Entries of their own** are as many as the keys, so the keys are distinct. -/
theorem keys_distinct_of_entries {report : Report} (hin : ∀ x ∈ cfg.thresholds, InRange x)
    (hreport : GetHealth cfg cfg.thresholds histogram errorTracker = .ok report)
    {key : ℚ → String}
    (hkey : ∀ x ∈ cfg.thresholds, ∀ y ∈ cfg.thresholds, key x.1 = key y.1 → x.1 = y.1)
    (hentries : ∀ x ∈ cfg.thresholds, key x.1 ≠ "status" ∧ key x.1 ≠ "error_rate" ∧
      report (key x.1) = some (shown histogram x.1)) {x y : ℚ × ℚ} (hx : x ∈ cfg.thresholds)
    (hy : y ∈ cfg.thresholds) (hsame : percentileKey x.1 = percentileKey y.1) : x.1 = y.1 := by
  let entries : Finset (ℚ × ℚ) := cfg.thresholds.toFinset
  have hsub : entries.image (fun x => key x.1) ⊆ entries.image fun x => percentileKey x.1 := by
    intro k hk
    obtain ⟨z, hz, rfl⟩ := Finset.mem_image.mp hk
    obtain ⟨hstatus, hrate, hvalue⟩ := hentries z (List.mem_toFinset.mp hz)
    obtain ⟨z', hz', heq⟩ := key_of_report hin hreport hstatus hrate hvalue
    exact Finset.mem_image.mpr ⟨z', List.mem_toFinset.mpr hz', heq.symm⟩
  have hinj : Set.InjOn (fun x : ℚ × ℚ => key x.1) entries := by
    intro z hz z' hz' heq
    have hmem := List.mem_toFinset.mp hz
    have hmem' := List.mem_toFinset.mp hz'
    exact eq_of_key hmem hmem' (hkey z hmem z' hmem' heq)
  have hcard : entries.card ≤ (entries.image fun x => percentileKey x.1).card := by
    rw [← Finset.card_image_of_injOn hinj]
    exact Finset.card_le_card hsub
  have hkeys : Set.InjOn (fun x : ℚ × ℚ => percentileKey x.1) entries :=
    Finset.card_image_iff.mp (le_antisymm Finset.card_image_le hcard)
  have hxy := hkeys (List.mem_toFinset.mpr hx) (List.mem_toFinset.mpr hy) hsame
  rw [hxy]

/-- **When the report is complete and the same in every order**: exactly when no two
configured percentiles round to the same integer. -/
theorem report_complete_iff (hin : ∀ x ∈ cfg.thresholds, 0 ≤ x.1 ∧ x.1 ≤ 100)
    (histogram : Histogram) (errorTracker : ErrorTracker) :
    CompleteReport cfg histogram errorTracker ↔ DistinctRounded cfg := by
  constructor
  · intro h x hx y hy hround
    obtain ⟨report, hreport, key, hkey, hentries⟩ := h.entries _ (.refl _)
    have hsame := (percentileKey_eq_iff (hin x hx).1 (hin y hy).1).mpr hround
    exact keys_distinct_of_entries hin hreport hkey hentries hx hy hsame
  · intro hdistinct
    constructor
    · intro order order' horder horder'
      rw [getHealth_ok cfg histogram errorTracker (inRange_of_perm horder hin),
        getHealth_ok cfg histogram errorTracker (inRange_of_perm horder' hin),
        foldl_perm hin hdistinct horder horder']
    · intro order horder
      refine ⟨_, getHealth_ok cfg histogram errorTracker (inRange_of_perm horder hin),
        percentileKey, fun x hx y hy => keys_distinct hin hdistinct hx hy, fun x hx => ?_⟩
      have hstatus := percentileKey_ne_status x.1
      refine ⟨hstatus, percentileKey_ne_error_rate x.1, ?_⟩
      rw [override_of_ne hstatus, foldl_key hin hdistinct horder hx]

end

/-- The thresholds of `main` round to 50, 95 and 99, so each has an entry of its own. -/
theorem report_complete_iff_example :
    CompleteReport mainHealth (.recordAll [10, 20, 400]) (.recordAll [.success, .error]) :=
  (report_complete_iff (by decide +kernel) _ _).mpr (by decide +kernel)

/-- A threshold for one request in a thousand, and one for the slowest. -/
def tailHealth : HealthConfig where
  thresholds := [(999 / 10, 500), (100, 1000)]
  keys := by decide +kernel
  maxErrorRate := 1 / 2

/-- **`p100` flickers**: of the latencies 10 and 20 it is the smaller one or the larger one,
as the map happens to be read. -/
theorem p100_flickers :
    ¬ CompleteReport tailHealth (.recordAll [10, 20]) .new ∧
      (GetHealth tailHealth [(999 / 10, 500), (100, 1000)] (.recordAll [10, 20]) .new).map
        (· "p100") = .ok (some "20.00ms") ∧
      (GetHealth tailHealth [(100, 1000), (999 / 10, 500)] (.recordAll [10, 20]) .new).map
        (· "p100") = .ok (some "10.00ms") := by
  have hlast : (GetHealth tailHealth [(999 / 10, 500), (100, 1000)] (.recordAll [10, 20])
      .new).map (· "p100") = .ok (some "20.00ms") := by decide +kernel
  have hfirst : (GetHealth tailHealth [(100, 1000), (999 / 10, 500)] (.recordAll [10, 20])
      .new).map (· "p100") = .ok (some "10.00ms") := by decide +kernel
  refine ⟨fun h => ?_, hlast, hfirst⟩
  have hsame := h.orderFree [(999 / 10, 500), (100, 1000)] [(100, 1000), (999 / 10, 500)]
    (.refl _) (by decide +kernel)
  rw [hsame, hfirst] at hlast
  revert hlast
  decide

end EngineeringLab.Reliability
