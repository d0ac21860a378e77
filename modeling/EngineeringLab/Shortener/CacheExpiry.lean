/-
When the cache serves an expired link, and when it does not.

A cache hit is returned without looking at the clock, so an expired link is kept
out of a reply only by the lifetime its Redis entry was given. That lifetime is
`time.Until(expiresAt)` at one clock reading, the entry's deadline counts from the
moment the `SET` lands, and a duration that is not positive means no deadline at
all. Hence a link saved with an expiry already in the past is served for ever
(`serves_expired`), and a write that lands late outlives the link by its delay.

What does hold is about clock readings and expiries only (`promptSets`): the reading
that a request of an expiring link makes before its `SET` has to be earlier than the
expiry, and the `SET` has to follow it promptly. A save sends its `SET` itself; a
lookup starts a goroutine for it, and there both the start and the landing can be
late. If each of these steps takes at most `lag`, no lookup that starts more than
twice `lag` after the expiry returns a result (`expired_within`), and with no delay
none that starts after the expiry does (`expired_not_served`). Up to a nanosecond
nothing less will do: after a `SET` that was read too late or that lands too late,
some later `GET` finds the entry of an expired link (`late_set`).

The proof keeps a bound on the deadlines that Redis has (`Bounded`). A save's own
`SET` satisfies it by the reading before it; the goroutine of a lookup no longer knows
the reading, so what it knows of its duration is in its precondition.
-/
import EngineeringLab.Shortener.CacheTransparency

set_option autoImplicit false

open Concurrency

namespace EngineeringLab.Shortener

/-- A `SET` of `code` with duration `ttl` that lands in `e`: if the link expires, the
entry gets a deadline, and is alive until `lag` after the expiry at most. -/
def Timely (lag : ℤ) (e : Env) (code : String) (ttl : ℤ) : Prop :=
  ∀ url t, e.urls code = some (url, t) → t.valid = true →
    ∃ d, e.deadline code ttl = some d ∧ d ≤ t.time.instant + lag + 1

/-- Every row's expiry is in UTC, and every Redis entry belongs to a row and, when
the row expires, is alive until `lag` after that at most. -/
structure Bounded (lag : ℤ) (e : Env) : Prop where
  utc : ∀ code url t, e.urls code = some (url, t) → t.valid = true → t.time.offset = 0
  entry : ∀ code en, e.redis code = some en → ∃ url t, e.urls code = some (url, t) ∧
    (t.valid = true → ∃ d, en.deadline = some d ∧ d ≤ t.time.instant + lag + 1)

/-- Time does not run backwards, and rows stay. -/
structure Onward (e e' : Env) : Prop where
  now : e.now ≤ e'.now
  rows : RowsStay e e'

theorem Onward.refl (e : Env) : Onward e e := ⟨le_refl _, .refl _⟩

theorem Onward.trans {e e' e'' : Env} (h : Onward e e') (h' : Onward e' e'') : Onward e e'' :=
  ⟨h.now.trans h'.now, h.rows.trans h'.rows⟩

theorem Onward.of_path {e e' : Env} (h : Relation.ReflTransGen Onward e e') : Onward e e' := by
  induction h with
  | refl => exact .refl _
  | tail _ hs ih => exact ih.trans hs

theorem Onward.of_extends {inv : Env → Prop} {h h' : History Env Call Answer}
    (hx : History.Extends inv Onward h h') : Onward h.now h'.now :=
  hx.rel Onward.refl Onward.trans (fun hs => hs)

/-- From the start of a request to now, and so to any later now. -/
theorem Onward.extended {inv : Env → Prop} {h h' : History Env Call Answer}
    (hf : Onward h.first h.now) (hx : History.Extends inv Onward h h') :
    Onward h'.first h'.now := by
  rw [hx.first_eq]
  exact hf.trans (.of_extends hx)

/-! ## What each atomic step keeps -/

section

variable {lag : ℤ} {e e' : Env}

theorem Bounded.drift (h : Bounded lag e) (hd : Drift e e') : Bounded lag e' ∧ Onward e e' := by
  refine ⟨⟨fun code url t hr => h.utc code url t (by rwa [hd.urls] at hr), ?_⟩,
    ⟨hd.now, fun code row hr => by rwa [hd.urls]⟩⟩
  intro code en hen
  rw [hd.urls]
  rcases hd.redis code with hr | hr
  · exact h.entry code en (by rwa [hr] at hen)
  · rw [hr] at hen; cases hen

theorem Bounded.same (h : Bounded lag e) (hn : e'.now = e.now) (hu : e'.urls = e.urls)
    (hr : e'.redis = e.redis) : Bounded lag e' ∧ Onward e e' := by
  refine ⟨⟨by rw [hu]; exact h.utc, ?_⟩, ⟨hn.ge, fun code row hrow => by rwa [hu]⟩⟩
  rw [hu, hr]
  exact h.entry

theorem Bounded.insert (h : Bounded lag e) {code url : String} {x : Option Time}
    (hnew : e.urls code = none) (hx : ∀ t, x = some t → t.offset = 0) :
    Bounded lag (e.insert code url (.ofOption x)) ∧ Onward e (e.insert code url (.ofOption x)) := by
  have hstay : RowsStay e (e.insert code url (.ofOption x)) := by
    intro code' row hrow
    have hne : code' ≠ code := by rintro rfl; rw [hnew] at hrow; cases hrow
    simpa [Env.insert, Function.update_of_ne hne] using hrow
  refine ⟨⟨?_, ?_⟩, ⟨le_refl _, hstay⟩⟩
  · intro code' url' t hrow ht
    by_cases hc : code' = code
    · subst hc
      simp only [Env.insert, Function.update_self, Option.some.injEq, Prod.mk.injEq] at hrow
      obtain ⟨-, rfl⟩ := hrow
      cases x with
      | none => simp [NullTime.ofOption] at ht
      | some t => exact hx t rfl
    · exact h.utc code' url' t (by simpa [Env.insert, Function.update_of_ne hc] using hrow) ht
  · intro code' en hen
    obtain ⟨url', t, hrow, hd⟩ := h.entry code' en hen
    exact ⟨url', t, hstay _ _ hrow, hd⟩

theorem Bounded.set (h : Bounded lag e) {code data : String} {ttl : ℤ} {row : String × NullTime}
    (hrow : e.urls code = some row) (ht : Timely lag e code ttl) :
    Bounded lag (e.set code data ttl) ∧ Onward e (e.set code data ttl) := by
  refine ⟨⟨h.utc, ?_⟩, ⟨le_refl _, fun _ _ hr => hr⟩⟩
  intro code' en hen
  by_cases hc : code' = code
  · subst hc
    simp only [Env.set, Function.update_self, Option.some.injEq] at hen
    refine ⟨row.1, row.2, hrow, fun hv => ?_⟩
    obtain ⟨d, hd, hle⟩ := ht row.1 row.2 hrow hv
    exact ⟨d, by rw [← hen, ← hd], hle⟩
  · exact h.entry code' en (by simpa [Env.set, Function.update_of_ne hc] using hen)

theorem Bounded.exec_set (h : Bounded lag e) {code data : String} {ttl : ℤ}
    {row : String × NullTime} (hrow : e.urls code = some row) (ht : Timely lag e code ttl)
    {r : Option String} (he : Exec e (.redisSet code data ttl) r e') :
    Bounded lag e' ∧ Onward e e' := by
  cases he with
  | redisSet => exact h.set hrow ht
  | redisSet_lost msg => exact ⟨h, .refl _⟩
  | redisSet_late msg => exact h.set hrow ht

/-- An entry that a `GET` finds is found before the deadline of its link. -/
theorem Bounded.live (h : Bounded lag e) {code : String} {en : Entry}
    (hen : e.live code = some en) : ∃ url t, e.urls code = some (url, t) ∧
      (t.valid = true → e.now ≤ t.time.instant + lag) := by
  obtain ⟨url, t, hrow, hd⟩ := h.entry code en (Env.redis_of_live hen)
  refine ⟨url, t, hrow, fun hv => ?_⟩
  obtain ⟨d, hdl, hle⟩ := hd hv
  have hred := Env.redis_of_live hen
  obtain ⟨data, dl⟩ := en
  cases hdl
  simp only [Env.live, hred] at hen
  split at hen
  · omega
  · cases hen

end

/-! ## Readings and durations -/

/-- The instant of the request's last clock reading. -/
def reading (h : History Env Call Answer) : Option ℤ := h.calls.findSome? fun
  | ⟨.timeNow, t⟩ => some t.instant
  | _ => none

theorem reading_own (h : History Env Call Answer) (t : Time) (e : Env) :
    reading (.own h .timeNow t e) = some t.instant := rfl

theorem reading_extends {inv : Env → Prop} {h h' : History Env Call Answer}
    (hx : History.Extends inv Onward h h') : reading h' = reading h := by
  unfold reading
  rw [hx.calls_eq]

/-- Before the expiry `time.Until` is positive, and no more than what is left. -/
theorem Time.sub_of_lt {x : Time} {now : ℤ} (offset : ℤ) (h : now < x.instant) :
    0 < x.sub ⟨now, offset⟩ ∧ now + x.sub ⟨now, offset⟩ ≤ x.instant := by
  simp only [Time.sub, minDuration, maxDuration]
  omega

/-- A `SET` with a positive duration that ends in time. -/
theorem Timely.of_positive {lag : ℤ} {e : Env} {code url : String} {t : NullTime} {ttl : ℤ}
    (hrow : e.urls code = some (url, t))
    (h : t.valid = true → 0 < ttl ∧ e.now + ttl ≤ t.time.instant + lag) :
    Timely lag e code ttl := by
  intro url' t' hrow' hv
  rw [hrow] at hrow'
  cases hrow'
  obtain ⟨hpos, hle⟩ := h hv
  refine ⟨e.now + ttl, if_pos hpos, ?_⟩
  omega

/-! ## The contract -/

/-- Saves whose expiry, if any, is given in UTC, and lookups. -/
def utcOnly : Request → Prop
  | .save _ _ expiresAt => ∀ t, expiresAt = some t → t.offset = 0
  | .lookup _ => True
  | .backfill .. => False

/-- The condition on a call. Before the `SET` of an expiring link the request has read the
clock while the expiry, for a lookup the one that the column gives back, was still ahead, and at
most `lag` ago; and the `SET` of a goroutine lands at most `lag` after the goroutine was
started. -/
def promptSets (lag : ℤ) (q : Request) (h : History Env Call Answer) (c : Call) (_ : Answer c)
    (_ : Env) : Prop :=
  match q, c with
  | .save _ _ (some x), .redisSet .. =>
    ∀ now ∈ reading h, now < x.instant ∧ h.now.now ≤ now + lag
  | .lookup code, .goRedisSet .. =>
    ∀ row ∈ h.now.urls code, row.2.valid = true →
      ∀ now ∈ reading h, now < (timestampColumn row.2.time).instant ∧ h.now.now ≤ now + lag
  | .backfill code _ _, .redisSet .. =>
    ∀ row ∈ h.now.urls code, row.2.valid = true → h.now.now ≤ h.first.now + lag
  | _, _ => True

instance (lag : ℤ) (q : Request) (h : History Env Call Answer) (c : Call) (r : Answer c)
    (e : Env) : Decidable (promptSets lag q h c r e) := by
  unfold promptSets
  split <;> infer_instance

/-- What a lookup of `code` owes: a result only while the link lives (and `lag`
more), and for a link that was past that when the lookup began the right error, or
the one of its own `SELECT`. -/
def Punctual (lag : ℤ) (code : String) (res : Option LookupResult) (err : Option StoreError)
    (h : History Env Call Answer) : Prop :=
  (∀ r, res = some r → ∃ url t, h.now.urls code = some (url, t) ∧
    (t.valid = true → h.first.now ≤ t.time.instant + lag)) ∧
  (∀ url t, h.first.urls code = some (url, t) → t.valid = true →
    t.time.instant + lag < h.first.now →
      err = some .errExpired ∨ SelectFailed code err h)

def CachedStore.expiry (cs : CachedStore) (lag : ℤ) : Contract (cs.system utcOnly) where
  inv := Bounded (2 * lag)
  rely := Onward
  pre q e := match q with
    | .save _ _ expiresAt => ∀ t, expiresAt = some t → t.offset = 0
    | .lookup _ => True
    | .backfill code _ ttl => ∃ url t, e.urls code = some (url, t) ∧
      (t.valid = true → 0 < ttl ∧ e.now + ttl ≤ t.time.instant + lag)
  ok := promptSets lag
  guar _ h c _ e := (Bounded (2 * lag) e ∧ Onward h.now e) ∧
    ∀ code data ttl, c = .goRedisSet code data ttl → ∃ url t, e.urls code = some (url, t) ∧
      (t.valid = true → 0 < ttl ∧ e.now + ttl ≤ t.time.instant + lag)
  post q r h := match q, r with
    | .lookup code, .ok (.found res err) => Punctual (2 * lag) code res err h
    | _, _ => True

section

variable {cs : CachedStore} {lag : ℤ}

theorem expiry_backfill {code data : String} {ttl : ℤ} {e : Env}
    (hpre : (cs.expiry lag).pre (.backfill code data ttl) e) :
    (cs.expiry lag).Safe (.backfill code data ttl) (cs.body (.backfill code data ttl))
      (.start e) := by
  intro h' hx hi r e' he hok
  obtain ⟨url, t, hrow, hleft⟩ := hpre
  have hrow' := (Onward.of_extends hx).rows code _ hrow
  have htimely : Timely (2 * lag) h'.now code ttl := by
    refine .of_positive hrow' fun hv => ⟨(hleft hv).1, ?_⟩
    have hland := hok _ hrow' hv
    rw [hx.first_eq] at hland
    have hstarted := (hleft hv).2
    change h'.now.now ≤ e.now + lag at hland
    omega
  exact ⟨⟨Bounded.exec_set hi hrow' htimely he, by simp⟩, trivial⟩

/-- The write-through at the end of a save. -/
theorem expiry_write {code url data : String} {x : Option Time} {ttl : ℤ}
    {h : History Env Call Answer} (hrow : h.now.urls code = some (url, .ofOption x))
    (hread : ∀ t, x = some t → ∃ now offset, reading h = some now ∧ ttl = t.sub ⟨now, offset⟩)
    (hlag : 0 ≤ lag) :
    (cs.expiry lag).Safe (.save code url x)
      ((do let _ ← redisSet code data ttl; return none : Method (Option StoreError)) >>=
        fun err => .ret (.saved err)) h := by
  intro h' hx hi r e' he hok
  have hrow' := (Onward.of_extends hx).rows code _ hrow
  have htimely : Timely (2 * lag) h'.now code ttl := by
    refine .of_positive hrow' fun hv => ?_
    cases x with
    | none => cases hv
    | some t =>
        obtain ⟨now, offset, hnow, rfl⟩ := hread t rfl
        obtain ⟨hahead, hland⟩ := hok now ((reading_extends hx).trans hnow)
        obtain ⟨hpos, hleft⟩ := Time.sub_of_lt offset hahead
        refine ⟨hpos, ?_⟩
        change _ ≤ t.instant + 2 * lag
        omega
  exact ⟨⟨Bounded.exec_set hi hrow' htimely he, by simp⟩, trivial⟩

theorem expiry_save (hlag : 0 ≤ lag) {code url : String} {x : Option Time} {e : Env}
    (hx : ∀ t, x = some t → t.offset = 0) :
    (cs.expiry lag).Safe (.save code url x) (cs.body (.save code url x)) (.start e) := by
  intro h₁ hx₁ hi₁ r₁ e₁ he₁ _
  cases he₁ with
  | pgInsert_fail msg => exact ⟨⟨⟨hi₁, .refl _⟩, by simp⟩, trivial⟩
  | pgInsert hnew =>
      refine ⟨⟨Bounded.insert hi₁ hnew hx, by simp⟩, ?_⟩
      have hrow : (h₁.now.insert code url (.ofOption x)).urls code = some (url, .ofOption x) := by
        simp [Env.insert]
      cases x with
      | none => exact expiry_write hrow (fun _ hnone => by cases hnone) hlag
      | some t =>
          intro h₂ hx₂ hi₂ r₂ e₂ he₂ _
          have hrow₂ := (Onward.of_extends hx₂).rows code _ hrow
          cases he₂ with
          | @timeNow offset =>
              refine ⟨⟨Bounded.same hi₂ rfl rfl rfl, by simp⟩, expiry_write hrow₂ ?_ hlag⟩
              rintro _ ⟨⟩
              exact ⟨h₂.now.now, offset, reading_own _ _ _, rfl⟩

/-- A result is punctual when the link it comes from was alive at the start. -/
theorem punctual_found {code url : String} {t : NullTime} {v : LookupResult}
    {h : History Env Call Answer} (hf : Onward h.first h.now)
    (hrow : h.now.urls code = some (url, t))
    (hlive : t.valid = true → h.first.now ≤ t.time.instant + lag) :
    Punctual lag code (some v) none h := by
  refine ⟨fun _ _ => ⟨url, t, hrow, hlive⟩, fun url' t' hfirst hv hlt => ?_⟩
  have hsame := hf.rows code _ hfirst
  rw [hrow] at hsame
  cases hsame
  have := hlive hv
  omega

theorem punctual_absent {code : String} {h : History Env Call Answer}
    (hf : Onward h.first h.now) (hrow : h.now.urls code = none) :
    Punctual lag code none none h := by
  refine ⟨by rintro r ⟨⟩, fun url t hfirst => ?_⟩
  have hsame := hf.rows code _ hfirst
  rw [hrow] at hsame
  cases hsame

/-- The two errors report no result. -/
theorem punctual_expired {code : String} {h : History Env Call Answer} :
    Punctual lag code none (some .errExpired) h :=
  ⟨by rintro r ⟨⟩, fun _ _ _ _ _ => .inl rfl⟩

theorem punctual_database {code msg : String} {h : History Env Call Answer}
    (hfailed : ⟨.pgSelect code, .error (.database msg)⟩ ∈ h.calls) :
    Punctual lag code none (some (.database msg)) h :=
  ⟨by rintro r ⟨⟩, fun _ _ _ _ _ => .inr ⟨msg, rfl, hfailed⟩⟩

/-- The end of the miss path: start the backfill of a row, return its value. The duration
was computed from the clock reading before it, and from what the column gives for the expiry. -/
theorem expiry_fill {code url : String} {t : NullTime} {v : LookupResult}
    {x : Time} {now offset : ℤ} {h : History Env Call Answer} (hf : Onward h.first h.now)
    (hrow : h.now.urls code = some (url, t)) (hcol : t.valid = true → x = timestampColumn t.time)
    (hread : reading h = some now)
    (hlive : t.valid = true → h.first.now ≤ t.time.instant + 2 * lag) :
    (cs.expiry lag).Safe (.lookup code)
      ((do goRedisSet code (cs.json.marshal v) (x.sub ⟨now, offset⟩); return (some v, none) :
        Method (Option LookupResult × Option StoreError)) >>=
        fun r => .ret (.found r.1 r.2)) h := by
  intro h' hx hi r e' he hok
  have hon : Onward h.now h'.now := .of_extends hx
  have hf' : Onward h'.first h'.now := hf.extended hx
  have hrow' := hon.rows code _ hrow
  cases he with
  | goRedisSet =>
      refine ⟨⟨⟨hi, .refl _⟩, ?_⟩, ?_⟩
      · -- the deadline of the entry: its reading plus what was left until the expiry of the column
        rintro c d l ⟨⟩
        refine ⟨url, t, hrow', fun hv => ?_⟩
        have hutc := timestampColumn_le (hi.utc code url t hrow' hv)
        rw [hcol hv]
        obtain ⟨hahead, hstart⟩ := hok _ hrow' hv now ((reading_extends hx).trans hread)
        obtain ⟨hpos, hleft⟩ := Time.sub_of_lt offset hahead
        refine ⟨hpos, ?_⟩
        dsimp only at hleft
        omega
      · refine punctual_found ?_ hrow' ?_
        · exact hf'
        · rwa [History.first_own, hx.first_eq]

/-- The miss path for a row that never expires, or had not expired. -/
theorem expiry_row (v : LookupResult) (x : Time) {code url : String}
    {t : NullTime} {h : History Env Call Answer} (hf : Onward h.first h.now)
    (hrow : h.now.urls code = some (url, t)) (hcol : t.valid = true → x = timestampColumn t.time)
    (hlive : t.valid = true → h.first.now ≤ t.time.instant + 2 * lag) :
    (cs.expiry lag).Safe (.lookup code)
      ((do
        let now ← timeNow
        goRedisSet code (cs.json.marshal v) (x.sub now)
        return (some v, none) : Method (Option LookupResult × Option StoreError)) >>=
        fun r => .ret (.found r.1 r.2)) h := by
  intro h' hx hi r e' he _
  have hon : Onward h.now h'.now := .of_extends hx
  have hf' : Onward h'.first h'.now := hf.extended hx
  cases he with
  | timeNow =>
      refine ⟨⟨⟨hi, .refl _⟩, by simp⟩, ?_⟩
      refine expiry_fill ?_ (hon.rows code _ hrow) hcol (reading_own _ _ _) fun hv => ?_
      · exact hf'
      · rw [History.first_own, hx.first_eq]
        exact hlive hv

/-- The miss path. `h` is the history after the cache had no answer. -/
theorem expiry_miss (hlag : 0 ≤ lag) {code : String} {h : History Env Call Answer}
    (hf : Onward h.first h.now) :
    (cs.expiry lag).Safe (.lookup code)
      (cs.lookupPrimary code >>= fun r => .ret (.found r.1 r.2)) h := by
  intro h₂ hx₂ hi₂ r₂ e₂ he₂ _
  have hf₂ : Onward h₂.first h₂.now := hf.extended hx₂
  cases he₂ with
  | incCacheMiss =>
      refine ⟨⟨Bounded.same hi₂ rfl rfl rfl, by simp⟩, ?_⟩
      intro h₃ hx₃ hi₃ r₃ e₃ he₃ _
      have hf₃ : Onward h₃.first h₃.now := by
        refine Onward.extended ?_ hx₃
        exact ⟨hf₂.now, hf₂.rows⟩
      cases he₃ with
      | pgSelect_fail msg =>
          exact ⟨⟨⟨hi₃, .refl _⟩, by simp⟩, punctual_database List.mem_cons_self⟩
      | pgSelect =>
          refine ⟨⟨⟨hi₃, .refl _⟩, by simp⟩, ?_⟩
          cases hrow : h₃.now.urls code with
          | none => exact punctual_absent hf₃ hrow
          | some row =>
              obtain ⟨url, t⟩ := row
              by_cases hv : t.valid = true
              · simp only [Option.map_some, readRow, hv, if_true]
                intro h₄ hx₄ hi₄ r₄ e₄ he₄ _
                have h₃₄ : Onward h₃.now h₄.now := by
                  have h := Onward.of_extends hx₄
                  exact ⟨h.now, h.rows⟩
                have hfirst₄ : h₄.first = h₃.first := hx₄.first_eq
                cases he₄ with
                | @timeNow offset =>
                    refine ⟨⟨⟨hi₄, .refl _⟩, by simp⟩, ?_⟩
                    by_cases hexp :
                        (Time.after ⟨h₄.now.now, offset⟩ (timestampColumn t.time)) = true
                    · simp only [Prog.bind, hexp, if_true]
                      exact punctual_expired
                    · simp only [Prog.bind, hexp]
                      -- the check comes after the row was read, so a row that passes it
                      -- had not expired when the lookup began
                      have hlive : h₃.first.now ≤ t.time.instant := by
                        have hcol := timestampColumn_le (hi₃.utc code url t hrow hv)
                        simp only [Time.after, decide_eq_true_eq] at hexp
                        have h1 := hf₃.now
                        have h2 := h₃₄.now
                        omega
                      refine expiry_row _ _ ?_ (h₃₄.rows code _ hrow) (fun _ => rfl) fun _ => ?_
                      · rw [History.first_own, hfirst₄]
                        exact hf₃.trans h₃₄
                      · rw [History.first_own, hfirst₄]
                        omega
              · simp only [Bool.not_eq_true] at hv
                simp only [Option.map_some, readRow, hv]
                have hnever : ∀ {P : Prop}, t.valid = true → P := fun hvalid => by
                  rw [hv] at hvalid
                  cases hvalid
                exact expiry_row ⟨url, some .zero⟩ .zero hf₃ hrow hnever hnever

theorem expiry_lookup (hlag : 0 ≤ lag) {code : String} {e : Env} :
    (cs.expiry lag).Safe (.lookup code) (cs.body (.lookup code)) (.start e) := by
  intro h₁ hx₁ hi₁ r₁ e₁ he₁ _
  have hf₁ : Onward h₁.first h₁.now := by
    refine Onward.extended ?_ hx₁
    exact .refl e
  cases he₁ with
  | redisGet_fail msg =>
      refine ⟨⟨⟨hi₁, .refl _⟩, by simp⟩, ?_⟩
      refine expiry_miss hlag ?_
      exact hf₁
  | redisGet =>
      refine ⟨⟨⟨hi₁, .refl _⟩, by simp⟩, ?_⟩
      cases hen : h₁.now.live code with
      | none =>
          refine expiry_miss hlag ?_
          exact hf₁
      | some en =>
          -- a hit: no clock is read, only the entry's deadline bounds the answer
          obtain ⟨url, t, hrow, hlive⟩ := hi₁.live hen
          intro h₂ hx₂ hi₂ r₂ e₂ he₂ _
          have hon₂ : Onward h₁.now h₂.now := by
            have h := Onward.of_extends hx₂
            exact ⟨h.now, h.rows⟩
          have hfirst₂ : h₂.first = h₁.first := hx₂.first_eq
          cases he₂ with
          | incCacheHit =>
              refine ⟨⟨Bounded.same hi₂ rfl rfl rfl, by simp⟩, ?_⟩
              refine punctual_found ?_ (hon₂.rows code _ hrow) fun hv => ?_
              · rw [History.first_own, hfirst₂]
                have hon := hf₁.trans hon₂
                exact ⟨hon.now, hon.rows⟩
              · rw [History.first_own, hfirst₂]
                exact hf₁.now.trans (hlive hv)

theorem expiry_holds (hlag : 0 ≤ lag) : (cs.expiry lag).Holds where
  drift e e' hi hd := hi.drift hd
  call q h c r e hi he hg := by
    refine ⟨hg.1.1, hg.1.2, fun q' hq' => ?_⟩
    cases c <;> simp only [CachedStore.system, spawned, List.mem_singleton, List.not_mem_nil] at hq'
    rw [hq']
    exact hg.2 _ _ _ rfl
  arrive q e hq _ := by
    cases q with
    | save code url expiresAt => exact hq
    | lookup code => trivial
    | backfill code data ttl => exact hq.elim
  body q e _ hq := by
    cases q with
    | save code url expiresAt => exact expiry_save hlag hq
    | lookup code => exact expiry_lookup hlag
    | backfill code data ttl => exact expiry_backfill hq

end

/-! ## Every run -/

/-- A lookup that starts more than twice `lag` after the expiry of the link returns no
result, and the right error if the link was there when it started. -/
theorem expired_within {cs : CachedStore} {lag : ℤ} (hlag : 0 ≤ lag) {e₀ : Env}
    (h₀ : Bounded (2 * lag) e₀) {w : World Env Request Call Answer Empty Reply}
    (hw : (cs.system utcOnly).Reach (promptSets lag) e₀ w)
    {t : Thread Env Request Call Answer Empty Reply} (ht : t ∈ w.threads) {code url : String}
    {x : Time} {res : Option LookupResult} {err : Option StoreError}
    (hreq : t.req = .lookup code) (hprog : t.prog = .ret (.found res err))
    (hrow : w.env.urls code = some (url, ⟨x, true⟩))
    (hlt : x.instant + 2 * lag < t.past.first.now) :
    res = none ∧ (t.past.first.urls code = some (url, ⟨x, true⟩) →
      err = some .errExpired ∨ SelectFailed code err t.past) := by
  have hK : (cs.expiry lag).Holds := expiry_holds hlag
  have hpost : Punctual (2 * lag) code res err t.past := by
    have hp := Contract.sound_post hK h₀ hw ht hprog
    simpa [CachedStore.expiry, hreq] using hp
  refine ⟨?_, fun hfirst => hpost.2 url _ hfirst rfl hlt⟩
  cases res with
  | none => rfl
  | some r =>
      -- the link it would come from is the saved one, and that one was over
      obtain ⟨url', t', hrow', hlive⟩ := hpost.1 r rfl
      have hend := (Onward.of_path ((Contract.sound hK h₀ hw).since ht)).rows code _ hrow'
      rw [hrow] at hend
      cases hend
      have hle : t.past.first.now ≤ x.instant + 2 * lag := hlive rfl
      omega

/-- **No expired link is served**, in every run in which the requests of expiring links read
the clock before the expiry and their `SET`s land without delay. -/
theorem expired_not_served {cs : CachedStore} {e₀ : Env} (h₀ : Bounded 0 e₀)
    {w : World Env Request Call Answer Empty Reply}
    (hw : (cs.system utcOnly).Reach (promptSets 0) e₀ w) :
    ∀ t ∈ w.threads, ∀ code res err, t.req = .lookup code → t.prog = .ret (.found res err) →
      ∀ url x, w.env.urls code = some (url, ⟨x, true⟩) → x.instant < t.past.first.now →
        res = none ∧ (t.past.first.urls code = some (url, ⟨x, true⟩) →
          err = some .errExpired ∨ SelectFailed code err t.past) := by
  intro t ht code res err hreq hprog url x hrow hlt
  exact expired_within (le_refl 0) h₀ hw ht hreq hprog hrow (by omega)

/-- After a `SET` that is not timely, the entry of the link is found at a moment later than
`lag` after the expiry. -/
theorem untimely_set {lag : ℤ} {e : Env} {code : String} (data : String) {ttl : ℤ}
    (h : ¬ Timely lag e code ttl) :
    ∃ url t e', e.urls code = some (url, t) ∧ t.valid = true ∧ Drift (e.set code data ttl) e' ∧
      t.time.instant + lag < e'.now ∧ (e'.live code).map (·.data) = some data := by
  unfold Timely at h
  push Not at h
  obtain ⟨url, t, hrow, hv, hd⟩ := h
  set now := max e.now (t.time.instant + lag + 1)
  -- The later moment is the one the clock reaches while nothing else happens: `SET` at `e`,
  -- then time passes.
  refine ⟨url, t, { e.set code data ttl with now := now }, hrow, hv,
    ⟨le_max_left _ _, rfl, fun _ => .inl rfl⟩, ?_, ?_⟩
  · show t.time.instant + lag < now
    omega
  · cases hdl : e.deadline code ttl with
    | none => simp [Env.live, Env.set, hdl]
    | some d =>
        have hd := hd d hdl
        -- A positive TTL sets a deadline and `KEEPTTL` keeps a live one: it is ahead either way.
        have hnow : e.now < d := by
          unfold Env.deadline at hdl
          split at hdl
          · cases hdl; omega
          · split at hdl
            · unfold Env.live at hdl
              split at hdl <;> first | cases hdl | skip
              split at hdl <;> cases hdl
              assumption
            · cases hdl
        have hlive : now < d := by omega
        simp [Env.live, Env.set, hdl, hlive]

/-- **Nothing less will do**, up to a nanosecond. A `SET` with the duration that is left at a
reading of the clock: if the reading is at the expiry or later, or if more than `lag` and a
nanosecond pass from the reading to the `SET`, some `GET` finds the entry more than `lag` after
the expiry. (The exceptions are go-redis' `KeepTTL`, which is what is left one nanosecond after
the expiry, and durations that do not fit 64 bits.) -/
theorem late_set {lag now offset : ℤ} {e : Env} {code url data : String} {x : Time}
    (hrow : e.urls code = some (url, ⟨x, true⟩)) (hkeep : x.instant - now ≠ keepTTL)
    (hfits : x.instant - now ≤ maxDuration)
    (hlate : x.instant ≤ now ∨ now + lag + 1 < e.now) :
    ∃ e', Drift (e.set code data (x.sub ⟨now, offset⟩)) e' ∧ x.instant + lag < e'.now ∧
      (e'.live code).map (·.data) = some data := by
  -- by `untimely_set` a deadline that is too late is enough, or none
  have huntimely : ¬ Timely lag e code (x.sub ⟨now, offset⟩) := by
    intro htimely
    obtain ⟨d, hd, hle⟩ := htimely url _ hrow rfl
    have hsub : x.sub ⟨now, offset⟩ = max minDuration (x.instant - now) := by
      simp only [Time.sub, min_eq_right hfits]
    rw [hsub] at hd
    by_cases hpos : 0 < x.instant - now
    · -- a lifetime that counts from too late a moment
      have hmax : max minDuration (x.instant - now) = x.instant - now := by
        simp only [minDuration]
        omega
      rw [hmax, Env.deadline, if_pos hpos] at hd
      have hend := Option.some.inj hd
      dsimp only at hle
      omega
    · -- no deadline at all
      have hnone : ¬ 0 < max minDuration (x.instant - now) := by
        simp only [minDuration]
        omega
      have hnot : max minDuration (x.instant - now) ≠ keepTTL := by
        simp only [minDuration, keepTTL] at hkeep ⊢
        omega
      rw [Env.deadline, if_neg hnone, if_neg hnot] at hd
      cases hd
  obtain ⟨url', t, e', hrow', -, hdrift, hlate', hfound⟩ := untimely_set data huntimely
  rw [hrow] at hrow'
  cases hrow'
  exact ⟨e', hdrift, hlate', hfound⟩

/-! ### Instances: a link that expires in an hour, and one that expired a second ago -/

/-- 2026-01-01T00:00:00Z, both stores empty. -/
def newYear : Env := ⟨1767225600 * 1000000000, fun _ => none, fun _ => none, 0, 0⟩

theorem bounded_newYear : Bounded 0 newYear where
  utc _ _ _ h := by cases h
  entry _ _ h := by cases h

/-- `encoding/json` as far as one value and its text go; an unknown text leaves the
zero value, as the ignored error of `Unmarshal` does. -/
def jsonOf (v : LookupResult) (text : String) : Json where
  marshal r := if r = v then text else ""
  unmarshal s := if s = text then v else ⟨"", none⟩

def atOne : Time := ⟨1767229200 * 1000000000, 0⟩

def oneHourCache : CachedStore where
  json := jsonOf ⟨"https://example.com", some atOne⟩
    "\x7b\"URL\":\"https://example.com\",\"ExpiresAt\":\"2026-01-01T01:00:00Z\"\x7d"
  ttl := 600 * 1000000000

/-- Save; the entry is lost, and a lookup writes it again; an hour and a second pass, look up. -/
def oneHourMoves : List (Move Env Request) :=
  [.arrive (.save "aZ3kQ9x" "https://example.com" (some atOne)), .call 0, .call 0, .call 0,
    .drift fun e => { e with redis := fun _ => none }, .arrive (.lookup "aZ3kQ9x"), .call 1,
    .call 1, .call 1, .call 1, .call 1, .call 1, .call 2,
    .drift fun e => { e with now := e.now + 3601 * 1000000000 },
    .arrive (.lookup "aZ3kQ9x"), .call 3, .call 3, .call 3, .call 3]

def oneHourLater : World Env Request Call Answer Empty Reply :=
  (oneHourCache.system utcOnly).playAll answer ⟨newYear, []⟩ oneHourMoves

theorem ended_oneHourLater :
    oneHourLater.ended 1 = some (.lookup "aZ3kQ9x",
        .ok (.found (some ⟨"https://example.com", some atOne⟩) none)) ∧
      oneHourLater.ended 2 = some (.backfill "aZ3kQ9x" (oneHourCache.json.marshal
        ⟨"https://example.com", some atOne⟩) (3600 * 1000000000), .ok .filled) ∧
      oneHourLater.ended 3 = some (.lookup "aZ3kQ9x", .ok (.found none (some .errExpired))) := by
  decide +kernel

theorem reach_oneHourLater :
    (oneHourCache.system utcOnly).Reach (promptSets 0) newYear oneHourLater := by
  refine System.reach_play exec_answer (fun m hm => ?_) (by decide +kernel)
  simp only [oneHourMoves, List.mem_cons, List.not_mem_nil, or_false] at hm
  rcases hm with rfl | rfl | rfl | rfl | rfl | rfl | rfl | rfl | rfl | rfl | rfl | rfl | rfl |
    rfl | rfl | rfl | rfl | rfl | rfl <;> try trivial
  · rintro t ⟨⟩
    rfl
  · exact fun e => ⟨le_refl _, rfl, fun _ => .inr rfl⟩
  · exact fun e => ⟨by simp, rfl, fun _ => .inl rfl⟩

/-- A link is saved with an hour to live, its entry is lost, and a lookup has it written
again. An hour and a second after the save a lookup is told that the link has expired. -/
theorem expired_not_served_example :
    ∃ t res err, oneHourLater.threads[3]? = some t ∧ t.prog = .ret (.found res err) ∧
      err = some .errExpired ∧ res = none := by
  obtain ⟨t, ht, hreq, hprog⟩ := World.thread_of_ended ended_oneHourLater.2.2
  have hrow : oneHourLater.env.urls "aZ3kQ9x" = some ("https://example.com", ⟨atOne, true⟩) := by
    decide +kernel
  have hstart : oneHourLater.threads[3]?.map (·.past.first.now) =
      some (1767229201 * 1000000000) := by
    decide +kernel
  rw [ht] at hstart
  have hlt : atOne.instant < t.past.first.now := by
    have h : t.past.first.now = 1767229201 * 1000000000 := Option.some.inj hstart
    rw [h]
    decide
  exact ⟨t, _, _, ht, hprog, rfl, (expired_not_served bounded_newYear reach_oneHourLater t
    (List.mem_of_getElem? ht) _ _ _ hreq hprog _ _ hrow hlt).1⟩

def secondAgo : Time := ⟨1767225599 * 1000000000, 0⟩

def secondAgoCache : CachedStore where
  json := jsonOf ⟨"https://example.com", some secondAgo⟩
    "\x7b\"URL\":\"https://example.com\",\"ExpiresAt\":\"2025-12-31T23:59:59Z\"\x7d"
  ttl := 600 * 1000000000

def secondAgoMoves : List (Move Env Request) :=
  [.arrive (.save "aZ3kQ9x" "https://example.com" (some secondAgo)), .call 0, .call 0, .call 0,
    .arrive (.lookup "aZ3kQ9x"), .call 1, .call 1]

def secondAgoSaved : World Env Request Call Answer Empty Reply :=
  (secondAgoCache.system utcOnly).playAll answer ⟨newYear, []⟩ secondAgoMoves

/-- **An expired link is served**: a save whose expiry is a second past writes a
Redis entry without expiry, and the lookup after it returns the link. -/
theorem serves_expired :
    ∃ w, (secondAgoCache.system utcOnly).Reach anyCall newYear w ∧
      w.env.urls "aZ3kQ9x" = some ("https://example.com", ⟨secondAgo, true⟩) ∧
      ∃ t ∈ w.threads, secondAgo.instant < t.past.first.now ∧ t.req = .lookup "aZ3kQ9x" ∧
        t.prog = .ret (.found (some ⟨"https://example.com", some secondAgo⟩) none) := by
  refine ⟨secondAgoSaved, ?_, by decide +kernel, ?_⟩
  · refine System.reach_play exec_answer (fun m hm => ?_) (System.meets_anyCall _ _)
    simp only [secondAgoMoves, List.mem_cons, List.not_mem_nil, or_false] at hm
    rcases hm with rfl | rfl | rfl | rfl | rfl | rfl | rfl <;> try trivial
    rintro t ⟨⟩; rfl
  · have hended : secondAgoSaved.ended 1 = some (.lookup "aZ3kQ9x",
        .ok (.found (some ⟨"https://example.com", some secondAgo⟩) none)) := by
      decide +kernel
    obtain ⟨t, ht, hreq, hprog⟩ := World.thread_of_ended hended
    have hstart : secondAgoSaved.threads[1]?.map (·.past.first.now) =
        some (1767225600 * 1000000000) := by
      decide +kernel
    rw [ht] at hstart
    refine ⟨t, List.mem_of_getElem? ht, ?_, hreq, hprog⟩
    have h : t.past.first.now = 1767225600 * 1000000000 := Option.some.inj hstart
    rw [h]
    decide

end EngineeringLab.Shortener
