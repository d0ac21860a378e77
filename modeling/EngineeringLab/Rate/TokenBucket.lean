/-
Exact token buckets.

A bucket holds at most `burst` tokens and gains `rate` of them per second; a request is
admitted if it finds one token to take (`Bucket.allow`). This is `rate.Limiter` of Go's
`x/time` without its rounding: time and tokens are of an ordered field.

Two things are said about it. What a bucket will do is decided by the tokens it holds at each
later time (`AlikeFrom`), so a bucket that has had time to fill is as good as a new one
(`FullFrom`). And the tokens are a potential: what was admitted since `t` and what is still
there never exceed `burst + rate * (now - t)`, which bounds every window of time
(`Admitting`).

Time may stand still or run backwards between two requests, as a wall clock does; a bucket
then gains nothing. All lemmas are for any ordered field, and so for exact rationals, in
which examples can be computed. The potential argument is a telescope: every step adds at
most what time has passed, times the rate, and every admission takes one.
-/
import Mathlib.Algebra.Order.Field.Basic
import Mathlib.Data.List.Count
import Mathlib.Tactic.Linarith
import Mathlib.Tactic.Ring

set_option autoImplicit false

namespace Rate

variable {K : Type} [Field K] [LinearOrder K] [IsStrictOrderedRing K]

/-- Tokens per second, and how many a bucket can hold. -/
structure Limit (K : Type) [Field K] [LinearOrder K] where
  rate : K
  burst : K
  rate_pos : 0 < rate
  burst_nonneg : 0 ≤ burst

/-- The tokens there were at time `last`. -/
structure Bucket (l : Limit K) where
  tokens : K
  last : K
  nonneg : 0 ≤ tokens
  capped : tokens ≤ l.burst

namespace Bucket

variable {l : Limit K}

/-- A full bucket. -/
def full (l : Limit K) (last : K) : Bucket l := ⟨l.burst, last, l.burst_nonneg, le_refl _⟩

/-- The tokens at time `t`; a time before `last` counts as `last`. -/
def level (b : Bucket l) (t : K) : K := min l.burst (b.tokens + l.rate * (t - min t b.last))

omit [IsStrictOrderedRing K] in
theorem level_le (b : Bucket l) (t : K) : b.level t ≤ l.burst := min_le_left _ _

/-- Time that has passed brings tokens. -/
theorem refill_nonneg (b : Bucket l) (t : K) : 0 ≤ l.rate * (t - min t b.last) :=
  mul_nonneg l.rate_pos.le (sub_nonneg.mpr (min_le_left _ _))

/-- Take a token, if there is one. -/
def allow (b : Bucket l) (t : K) : Bool × Bucket l :=
  if h : 1 ≤ b.level t then
    (true, ⟨b.level t - 1, t, sub_nonneg.mpr h, by linarith [b.level_le t]⟩)
  else (false, b)

/-- The decisions on requests at the times of a list. -/
def decisions (b : Bucket l) : List K → List Bool
  | [] => []
  | t :: ts => (b.allow t).1 :: (b.allow t).2.decisions ts

section

variable {b b' : Bucket l} {t u : K}

/-- A bucket gains no more than its rate. -/
theorem level_le_add (b : Bucket l) (h : t ≤ u) : b.level u ≤ b.level t + l.rate * (u - t) := by
  have hgain : 0 ≤ l.rate * (u - t) := mul_nonneg l.rate_pos.le (sub_nonneg.mpr h)
  have helapsed : u - min u b.last ≤ (t - min t b.last) + (u - t) := by
    have := min_le_min_right b.last h
    linarith
  have hrefill := mul_le_mul_of_nonneg_left helapsed l.rate_pos.le
  rw [mul_add] at hrefill
  rcases le_total l.burst (b.tokens + l.rate * (t - min t b.last)) with hcap | hcap
  · have hfull : b.level t = l.burst := min_eq_left hcap
    have := b.level_le u
    linarith
  · have hlevel : b.level t = b.tokens + l.rate * (t - min t b.last) := min_eq_right hcap
    have : b.level u ≤ b.tokens + l.rate * (u - min u b.last) := min_le_right _ _
    linarith

theorem allow_eq_true_iff : (b.allow t).1 = true ↔ 1 ≤ b.level t := by
  unfold allow
  split <;> simp [*]

/-- A refused request leaves the bucket as it is. -/
theorem allow_refused (h : (b.allow t).1 = false) : (b.allow t).2 = b := by
  unfold allow at h ⊢
  split at h
  · cases h
  · rw [dif_neg]
    assumption

/-- An admitted one takes a token. -/
theorem level_allowed (h : (b.allow t).1 = true) : (b.allow t).2.level t = b.level t - 1 := by
  have hlevel := allow_eq_true_iff.mp h
  unfold allow
  rw [dif_pos hlevel, level]
  simp only [min_self, sub_self, mul_zero, add_zero]
  exact min_eq_right (by linarith [b.level_le t])

/-! ## Buckets that do the same -/

/-- From `t` on, the same tokens. -/
def AlikeFrom (t : K) (b b' : Bucket l) : Prop := ∀ u, t ≤ u → b.level u = b'.level u

omit [IsStrictOrderedRing K] in
theorem AlikeFrom.mono (h : AlikeFrom t b b') (ht : t ≤ u) : AlikeFrom u b b' :=
  fun v hv => h v (ht.trans hv)

/-- Buckets that hold the same decide the same, and go on to hold the same. -/
theorem AlikeFrom.allow (h : AlikeFrom t b b') :
    (b.allow t).1 = (b'.allow t).1 ∧ AlikeFrom t (b.allow t).2 (b'.allow t).2 := by
  have hlevel := h t le_rfl
  by_cases hone : 1 ≤ b.level t
  · have hone' : 1 ≤ b'.level t := hlevel ▸ hone
    refine ⟨by rw [allow_eq_true_iff.mpr hone, allow_eq_true_iff.mpr hone'], fun u hu => ?_⟩
    unfold Bucket.allow
    rw [dif_pos hone, dif_pos hone']
    change min l.burst (b.level t - 1 + l.rate * (u - min u t)) =
      min l.burst (b'.level t - 1 + l.rate * (u - min u t))
    rw [hlevel]
  · have hone' : ¬1 ≤ b'.level t := hlevel ▸ hone
    have hno : (b.allow t).1 = false := by
      rw [← Bool.not_eq_true, allow_eq_true_iff]
      exact hone
    have hno' : (b'.allow t).1 = false := by
      rw [← Bool.not_eq_true, allow_eq_true_iff]
      exact hone'
    rw [hno, hno', allow_refused hno, allow_refused hno']
    exact ⟨rfl, h⟩

/-- From `t` on, full. -/
def FullFrom (t : K) (b : Bucket l) : Prop := ∀ u, t ≤ u → b.level u = l.burst

omit [IsStrictOrderedRing K] in
theorem FullFrom.mono (h : FullFrom t b) (ht : t ≤ u) : FullFrom u b :=
  fun v hv => h v (ht.trans hv)

omit [IsStrictOrderedRing K] in
theorem FullFrom.alike (h : FullFrom t b) (h' : FullFrom t b') : AlikeFrom t b b' :=
  fun u hu => by rw [h u hu, h' u hu]

theorem fullFrom_full (last : K) : FullFrom t (full l last) :=
  fun u _ => min_eq_left (by simpa [full] using (full l last).refill_nonneg u)

/-- An empty bucket fills in `burst / rate` seconds. -/
theorem fullFrom_last (b : Bucket l) : FullFrom (b.last + l.burst / l.rate) b := by
  intro u hu
  have hlast : b.last ≤ u := by
    have := div_nonneg l.burst_nonneg l.rate_pos.le
    linarith
  have hrefill : l.burst ≤ l.rate * (u - b.last) := by
    have hwait : l.burst / l.rate ≤ u - b.last := by linarith
    have hgain := mul_le_mul_of_nonneg_left hwait l.rate_pos.le
    rwa [mul_div_cancel₀ _ l.rate_pos.ne'] at hgain
  refine min_eq_left ?_
  rw [min_eq_right hlast]
  linarith [b.nonneg]

/-- A request delays the time from which a bucket is full by `burst / rate` at most. -/
theorem FullFrom.allow (h : FullFrom t b) (ht : t ≤ u + l.burst / l.rate) :
    FullFrom (u + l.burst / l.rate) (b.allow u).2 := by
  by_cases hone : 1 ≤ b.level u
  · have hlast : (b.allow u).2.last = u := by
      unfold Bucket.allow
      rw [dif_pos hone]
    have hfull := fullFrom_last (b.allow u).2
    rwa [hlast] at hfull
  · have hno : (b.allow u).1 = false := by
      rw [← Bool.not_eq_true, allow_eq_true_iff]
      exact hone
    rw [allow_refused hno]
    exact h.mono ht

end

end Bucket

/-! ## How much is admitted -/

/-- What holds of a bucket at time `now`, when `ts` are the times of the requests admitted:
what was admitted since `t` and what is left are bounded, and so is every window. -/
structure Admitting {l : Limit K} (b : Bucket l) (now : K) (ts : List K) : Prop where
  past : ∀ s ∈ ts, s ≤ now
  potential : ∀ t, t ≤ now →
    (ts.countP fun s => t ≤ s : ℕ) + b.level now ≤ l.burst + l.rate * (now - t)
  window : ∀ t t', t ≤ t' →
    (ts.countP fun s => t ≤ s ∧ s ≤ t' : ℕ) ≤ l.burst + l.rate * (t' - t)

section

variable {l : Limit K} {b b' : Bucket l} {now u : K} {ts : List K}

theorem admitting_nil (b : Bucket l) (now : K) : Admitting b now [] where
  past _ hs := by cases hs
  potential t ht := by
    have := mul_nonneg l.rate_pos.le (sub_nonneg.mpr ht)
    have := b.level_le now
    simp only [List.countP_nil, Nat.cast_zero]
    linarith
  window t t' ht := by
    have := mul_nonneg l.rate_pos.le (sub_nonneg.mpr ht)
    have := l.burst_nonneg
    simp only [List.countP_nil, Nat.cast_zero]
    linarith

/-- Time passes. -/
theorem Admitting.wait (h : Admitting b now ts) (hu : now ≤ u) : Admitting b u ts where
  past s hs := (h.past s hs).trans hu
  potential t ht := by
    rcases le_or_gt t now with hle | hgt
    · have hbefore := h.potential t hle
      have hgain := b.level_le_add hu
      have hsplit : l.rate * (u - t) = l.rate * (now - t) + l.rate * (u - now) := by ring
      linarith
    · -- nothing was admitted after `now`
      have hnone : ts.countP (fun s => decide (t ≤ s)) = 0 := by
        rw [List.countP_eq_zero]
        intro s hs
        have := h.past s hs
        simpa using this.trans_lt hgt
      have hgain := mul_nonneg l.rate_pos.le (sub_nonneg.mpr ht)
      have := b.level_le u
      rw [hnone, Nat.cast_zero]
      linarith
  window := h.window

/-- A bucket that holds no more admits no more. -/
theorem Admitting.replace (h : Admitting b now ts) (hb : b'.level now ≤ b.level now) :
    Admitting b' now ts where
  past := h.past
  potential t ht := by linarith [h.potential t ht]
  window := h.window

/-- A request is admitted: it takes what it adds. -/
theorem Admitting.admitted (h : Admitting b now ts) (hallow : (b.allow now).1 = true) :
    Admitting (b.allow now).2 now (now :: ts) where
  past s hs := by
    rcases List.mem_cons.mp hs with rfl | hs
    · exact le_rfl
    · exact h.past s hs
  potential t ht := by
    rw [Bucket.level_allowed hallow, List.countP_cons_of_pos (by simpa using ht)]
    have := h.potential t ht
    push_cast
    linarith
  window t t' ht := by
    by_cases hin : t ≤ now ∧ now ≤ t'
    · -- all that was admitted since `t` was admitted until `t'`
      have hone := Bucket.allow_eq_true_iff.mp hallow
      have hsince := h.potential t hin.1
      have hcount : (ts.countP fun s => t ≤ s ∧ s ≤ t' : ℕ) ≤ ts.countP fun s => t ≤ s := by
        refine List.countP_mono_left fun s _ hs => ?_
        simp only [decide_eq_true_eq] at hs ⊢
        exact hs.1
      have hcast : ((ts.countP fun s => t ≤ s ∧ s ≤ t' : ℕ) : K) ≤ (ts.countP fun s => t ≤ s : ℕ) :=
        Nat.cast_le.mpr hcount
      have hgain := mul_le_mul_of_nonneg_left (sub_le_sub_right hin.2 t) l.rate_pos.le
      rw [List.countP_cons_of_pos (by simpa using hin)]
      push_cast
      linarith
    · rw [List.countP_cons_of_neg (by simpa using hin)]
      exact h.window t t' ht

end

end Rate
