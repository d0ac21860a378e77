/-
What the cache holds for one link.

`Save` writes a link through to Redis as it was given, and a backfill writes what
`PgStore.Lookup` returned. The two agree for a link with an expiry. For one without,
`PgStore.Lookup` returns a pointer to the zero time, so a backfill writes a link that
expired in year 1 and gives the entry a lifetime that is not positive, which Redis takes
for none at all.

The contract of this file is about one code. While no `SELECT` of that code comes back
without an expiry, its entry decodes to the saved link, and has a deadline if the link
never expires. `Interchange` and `Lifetimes` read their results off it.

An entry stands in a relation to the row of its code (`Mirrors`): it decodes to the link, as
`toOption` reads the column's expiry, and it has a deadline if the column has none. Four
kinds of calls have to be looked at, the insert and the two ways in which a `SET` comes
about, and a `GET`; all others leave both sides alone (`guar_same`). A backfill that is
under way carries with it what it may assume (`Backfills`), since the lookup that started it
may have ended.
-/
import EngineeringLab.Shortener.CacheExpiry
import EngineeringLab.Shortener.ExpiryZones

set_option autoImplicit false

open Concurrency

namespace EngineeringLab.Shortener

/-! ## Rows and entries -/

/-- The expiry that a `sql.NullTime` stands for. -/
def NullTime.toOption (t : NullTime) : Option Time := if t.valid then some t.time else none

@[simp] theorem NullTime.toOption_ofOption (x : Option Time) :
    (NullTime.ofOption x).toOption = x := by
  cases x <;> rfl

/-- A `TIMESTAMP` column gives the time back as it was written. -/
def Time.Clean (t : Time) : Prop := t.offset = 0 ∧ t.instant % 1000 = 0

theorem Time.Clean.column {t : Time} (h : t.Clean) : timestampColumn t = t := by
  obtain ⟨instant, offset⟩ := t
  obtain ⟨hoffset, hmicro⟩ := h
  dsimp only at hoffset hmicro
  have hinstant : (instant + 0 * 1000000000) / 1000 * 1000 = instant := by omega
  rw [timestampColumn, hoffset, hinstant]

/-- The JSON of the link that a row holds decodes to it. -/
def CachedStore.RoundTrips (cs : CachedStore) (url : String) (x : Option Time) : Prop :=
  cs.json.unmarshal (cs.json.marshal ⟨url, x⟩) = ⟨url, x⟩

/-- `data` decodes to the link that a row holds, as far as its expiry and its JSON survive
being written at all. -/
def CachedStore.Decodes (cs : CachedStore) (data url : String) (t : NullTime) : Prop :=
  (t.valid = true → t.time.Clean) → cs.RoundTrips url t.toOption →
    cs.json.unmarshal data = ⟨url, t.toOption⟩

/-- The entry of `code` belongs to a row and decodes to its link; if that never expires,
the entry has a deadline, which is at most the default lifetime away. -/
def Mirrors (front : Option CachedStore) (code : String) (e : Env) : Prop :=
  ∀ cs, front = some cs → ∀ en, e.redis code = some en →
    ∃ url t, e.urls code = some (url, t) ∧ cs.Decodes en.data url t ∧
      (t.valid = false → 0 < cs.ttl → ∃ d, en.deadline = some d ∧ d ≤ e.now + cs.ttl)

/-! ## Stores on Postgres -/

/-- `PgStore`, with or without a cache in front of it. -/
def storeBody : Option CachedStore → Request → Method Reply
  | some cs, q => cs.body q
  | none, .save code url expiresAt => do
    let err ← PgStore.save code url expiresAt
    return .saved err
  | none, .lookup code => do
    let r ← PgStore.lookup code
    return .found r.1 r.2
  | none, .backfill .. => return .filled

/-- Any number of saves and lookups. -/
def storeSystem (front : Option CachedStore) : System Env Request Call Answer Empty Reply where
  body := storeBody front
  admits q := match q with
    | .backfill .. => False
    | _ => True
  exec := Exec
  drift := Drift
  spawn := spawned

/-- The condition on a call: a `SELECT` of `code` that finds the row finds an expiry in it. -/
def readsExpiry (code : String) (_ : Request) (_ : History Env Call Answer) :
    (c : Call) → Answer c → Env → Prop
  | .pgSelect code', r, _ => code' = code → ∀ row, r = .ok (some row) → row.2.valid = true
  | _, _, _ => True

/-! ## What each atomic step keeps -/

theorem Env.insert_urls_of_ne {e : Env} {code c url : String} {t : NullTime} (h : c ≠ code) :
    (e.insert code url t).urls c = e.urls c := Function.update_of_ne h _ _

theorem Env.set_redis_self (e : Env) (code data : String) (ttl : ℤ) :
    (e.set code data ttl).redis code = some ⟨data, e.deadline code ttl⟩ :=
  Function.update_self _ _ _

theorem Env.set_redis_of_ne {e : Env} {code c data : String} {ttl : ℤ} (h : c ≠ code) :
    (e.set code data ttl).redis c = e.redis c := Function.update_of_ne h _ _

section

variable {front : Option CachedStore} {code : String} {e e' : Env}

theorem Mirrors.drift (h : Mirrors front code e) (hd : Drift e e') :
    Mirrors front code e' ∧ Onward e e' := by
  refine ⟨fun cs hcs en hen => ?_, hd.now, fun code row hr => by rwa [hd.urls]⟩
  rcases hd.redis code with hr | hr
  · rw [hr] at hen
    obtain ⟨url, t, hrow, hdata, hdeadline⟩ := h cs hcs en hen
    refine ⟨url, t, by rwa [hd.urls], hdata, fun hv hpos => ?_⟩
    obtain ⟨d, hd', hle⟩ := hdeadline hv hpos
    have := hd.now
    exact ⟨d, hd', by omega⟩
  · rw [hr] at hen
    cases hen

/-- A step that touches neither the clock nor the stores. -/
theorem Mirrors.same (h : Mirrors front code e) (hn : e'.now = e.now) (hu : e'.urls = e.urls)
    (hr : e'.redis = e.redis) : Mirrors front code e' ∧ Onward e e' := by
  refine ⟨?_, hn.ge, fun code row hrow => by rwa [hu]⟩
  unfold Mirrors
  rw [hn, hu, hr]
  exact h

theorem Mirrors.insert (h : Mirrors front code e) {code' url : String} {t : NullTime}
    (hnew : e.urls code' = none) : Mirrors front code (e.insert code' url t) ∧
      Onward e (e.insert code' url t) := by
  have hstay : RowsStay e (e.insert code' url t) := by
    intro c row hrow
    have hne : c ≠ code' := by
      rintro rfl
      rw [hnew] at hrow
      cases hrow
    rwa [Env.insert_urls_of_ne hne]
  refine ⟨fun cs hcs en hen => ?_, le_refl _, hstay⟩
  obtain ⟨url', t', hrow, hrest⟩ := h cs hcs en hen
  exact ⟨url', t', hstay _ _ hrow, hrest⟩

/-- What a `SET` of the code has to bring along. -/
def SetFits (front : Option CachedStore) (e : Env) (code data : String) (ttl : ℤ) : Prop :=
  ∀ cs, front = some cs → ∃ url t, e.urls code = some (url, t) ∧ cs.Decodes data url t ∧
    (t.valid = false → 0 < cs.ttl → 0 < ttl ∧ ttl ≤ cs.ttl)

theorem Mirrors.set (h : Mirrors front code e) {code' data : String} {ttl : ℤ}
    (hfits : code' = code → SetFits front e code data ttl) :
    Mirrors front code (e.set code' data ttl) ∧ Onward e (e.set code' data ttl) := by
  refine ⟨fun cs hcs en hen => ?_, le_refl _, fun _ _ hr => hr⟩
  by_cases hc : code = code'
  · subst hc
    rw [Env.set_redis_self] at hen
    cases hen
    obtain ⟨url, t, hrow, hdata, httl⟩ := hfits rfl cs hcs
    refine ⟨url, t, hrow, hdata, fun hv hpos => ?_⟩
    obtain ⟨hlt, hle⟩ := httl hv hpos
    refine ⟨e.now + ttl, ?_, ?_⟩
    · rw [Env.deadline, if_pos hlt]
    · show e.now + ttl ≤ e.now + cs.ttl
      omega
  · rw [Env.set_redis_of_ne hc] at hen
    exact h cs hcs en hen

theorem Mirrors.exec_set (h : Mirrors front code e) {code' data : String} {ttl : ℤ}
    {r : Option String} (hfits : code' = code → SetFits front e code data ttl)
    (he : Exec e (.redisSet code' data ttl) r e') : Mirrors front code e' ∧ Onward e e' := by
  cases he with
  | redisSet => exact h.set hfits
  | redisSet_lost msg => exact ⟨h, .refl _⟩
  | redisSet_late msg => exact h.set hfits

end

/-! ## The contract -/

/-- What a backfill of the code has to bring along: a link with an expiry. -/
def Backfills (front : Option CachedStore) (e : Env) (code data : String) : Prop :=
  ∀ cs, front = some cs → ∃ url t, e.urls code = some (url, t) ∧ t.valid = true ∧
    cs.Decodes data url t

/-- What a lookup of `code` owes to a row that was there when it began: the link as it was
saved, if it has not expired when the lookup ends. -/
def Returned (front : Option CachedStore) (code : String) (res : Option LookupResult)
    (err : Option StoreError) (h : History Env Call Answer) : Prop :=
  ∀ url t, h.first.urls code = some (url, t) →
    (t.valid = true → t.time.Clean ∧ h.now.now ≤ t.time.instant) →
    (∀ cs, front = some cs → cs.RoundTrips url t.toOption) →
    SelectFailed code err h ∨ (res = some ⟨url, t.toOption⟩ ∧ err = none)

def mirroring (front : Option CachedStore) (code : String) : Contract (storeSystem front) where
  inv := Mirrors front code
  rely := Onward
  pre q e := match q with
    | .backfill code' data _ => code' = code → Backfills front e code data
    | _ => True
  ok := readsExpiry code
  guar _ h c _ e := (Mirrors front code e ∧ Onward h.now e) ∧
    (∀ data ttl, c = .redisSet code data ttl → SetFits front h.now code data ttl) ∧
    ∀ code' data ttl, c = .goRedisSet code' data ttl → code' = code → Backfills front e code data
  post q r h := match q, r with
    | .save code' url x, .ok (.saved none) => h.now.urls code' = some (url, .ofOption x)
    | .lookup code', .ok (.found res err) => code' = code → Returned front code res err h
    | _, _ => True

section

variable {front : Option CachedStore} {code code' : String} {q : Request}

/-- A call that touches nothing and starts nothing keeps the guarantee. -/
theorem guar_same {h : History Env Call Answer} {c : Call} {r : Answer c} {e : Env}
    (hi : Mirrors front code h.now) (hn : e.now = h.now.now) (hu : e.urls = h.now.urls)
    (hr : e.redis = h.now.redis) (hset : ∀ code data ttl, c ≠ .redisSet code data ttl)
    (hgo : ∀ code data ttl, c ≠ .goRedisSet code data ttl) :
    (mirroring front code).guar q h c r e :=
  ⟨hi.same hn hu hr, fun _ _ hc => absurd hc (hset _ _ _), fun _ _ _ hc => absurd hc (hgo _ _ _)⟩

/-- What `PgStore.Lookup` has read when it answers `r`. -/
def ReadBack (code : String) (h : History Env Call Answer) :
    Option LookupResult × Option StoreError → Prop
  | (some v, none) => ∃ url t, h.now.urls code = some (url, t) ∧ t.valid = true ∧
      v = ⟨url, some (timestampColumn t.time)⟩
  | (none, none) => h.first.urls code = none
  | (none, some .errExpired) => ∃ url t, h.now.urls code = some (url, t) ∧ t.valid = true ∧
      (timestampColumn t.time).instant < h.now.now
  | (_, some (.database msg)) => SelectFailed code (some (.database msg)) h
  | (some _, some .errExpired) => False

/-- The clock check of `PgStore.Lookup`, for a row with an expiry. -/
theorem pgCheck_along {h : History Env Call Answer} {url : String} {t : NullTime}
    (hf : Onward h.first h.now) (hrow : h.now.urls code' = some (url, t)) (hv : t.valid = true) :
    (mirroring front code).Along q
      (do
        let now ← timeNow
        if now.after (timestampColumn t.time) then
          return (none, some .errExpired)
        return (some ⟨url, some (timestampColumn t.time)⟩, none)) h fun o h' =>
      ∃ r, o = .ok r ∧ h'.first = h.first ∧ Onward h'.first h'.now ∧
        (code' = code → ReadBack code h' r) := by
  intro h' hx hi r e he _
  have hfirst : h'.first = h.first := hx.first_eq
  have hon : Onward h.now h'.now := .of_extends hx
  have hf' : Onward h'.first h'.now := hf.extended hx
  cases he with
  | @timeNow offset =>
      refine ⟨guar_same hi rfl rfl rfl (by simp) (by simp), ?_⟩
      -- The row answers at `h'`, and so it does at any later moment of the request.
      by_cases hexp : Time.after ⟨h'.now.now, offset⟩ (timestampColumn t.time) = true
      · simp only [Prog.bind, hexp, if_true]
        refine ⟨_, rfl, hfirst, hf', fun hc => ?_⟩
        subst hc
        have hlt : (timestampColumn t.time).instant < h'.now.now := by
          simpa [Time.after] using hexp
        exact ⟨url, t, hon.rows _ _ hrow, hv, hlt⟩
      · simp only [Prog.bind, hexp]
        refine ⟨_, rfl, hfirst, hf', fun hc => ?_⟩
        subst hc
        exact ⟨url, t, hon.rows _ _ hrow, hv, rfl⟩

/-- `PgStore.Lookup`, as a part of a request. -/
theorem pgLookup_along {h : History Env Call Answer} (hf : Onward h.first h.now) :
    (mirroring front code).Along q (PgStore.lookup code') h fun o h' =>
      ∃ r, o = .ok r ∧ h'.first = h.first ∧ Onward h'.first h'.now ∧
        (code' = code → ReadBack code h' r) := by
  intro h₁ hx₁ hi₁ r₁ e₁ he₁ hok
  have hfirst₁ : h₁.first = h.first := hx₁.first_eq
  have hf₁ : Onward h₁.first h₁.now := hf.extended hx₁
  cases he₁ with
  | pgSelect_fail msg =>
      exact ⟨guar_same hi₁ rfl rfl rfl (by simp) (by simp), _, rfl, hfirst₁, hf₁,
        fun hc => ⟨msg, rfl, hc ▸ List.mem_cons_self⟩⟩
  | pgSelect =>
      refine ⟨guar_same hi₁ rfl rfl rfl (by simp) (by simp), ?_⟩
      rcases hrow : h₁.now.urls code' with _ | ⟨url, t⟩
      · refine ⟨_, rfl, hfirst₁, hf₁, fun hc => ?_⟩
        subst hc
        -- a row that had been there would have stayed
        cases hbefore : h₁.first.urls code' with
        | none => exact hbefore
        | some row =>
            rw [hf₁.rows code' row hbefore] at hrow
            cases hrow
      · by_cases hv : t.valid = true
        · simp only [Option.map_some, readRow, hv, if_true]
          refine Contract.Along.mono (pgCheck_along ⟨hf₁.now, hf₁.rows⟩ hrow hv) ?_
          rintro o h₂ ⟨r, ho, hfirst₂, hrest⟩
          exact ⟨r, ho, hfirst₂.trans hfirst₁, hrest⟩
        · simp only [Option.map_some, readRow, hv]
          refine ⟨_, rfl, hfirst₁, hf₁, fun hc => ?_⟩
          -- the condition excludes a row without expiry
          have hvalid := hok hc (readRow (url, t)) (by rw [hrow]; rfl)
          simp [readRow, hv] at hvalid

/-- What was read is what is owed. -/
theorem ReadBack.returned {h : History Env Call Answer}
    {r : Option LookupResult × Option StoreError} (hr : ReadBack code h r)
    (hf : Onward h.first h.now) : Returned front code r.1 r.2 h := by
  intro url t hfirst hfresh _
  have hrow := hf.rows code _ hfirst
  rcases r with ⟨_ | v, _ | _ | msg⟩
  · have habsent : h.first.urls code = none := hr
    rw [hfirst] at habsent
    cases habsent
  · obtain ⟨url', t', hrow', hv, hlt⟩ := hr
    rw [hrow] at hrow'
    cases hrow'
    obtain ⟨hclean, hle⟩ := hfresh hv
    rw [hclean.column] at hlt
    omega
  · exact .inl hr
  · obtain ⟨url', t', hrow', hv, rfl⟩ := hr
    rw [hrow] at hrow'
    cases hrow'
    refine .inr ⟨?_, rfl⟩
    rw [(hfresh hv).1.column, NullTime.toOption, if_pos hv]
  · exact hr.elim
  · exact .inl hr

/-- A result that was read is what a backfill may write. -/
theorem ReadBack.backfills {h : History Env Call Answer} {v : LookupResult}
    (hr : ReadBack code h (some v, none)) {e : Env} (hon : Onward h.now e) :
    ∀ cs, front = some cs → ∃ url t, e.urls code = some (url, t) ∧ t.valid = true ∧
      cs.Decodes (cs.json.marshal v) url t := by
  intro cs _
  obtain ⟨url, t, hrow, hv, rfl⟩ := hr
  refine ⟨url, t, hon.rows _ _ hrow, hv, fun hclean hjson => ?_⟩
  rw [NullTime.toOption, if_pos hv] at hjson ⊢
  rw [(hclean hv).column]
  exact hjson

/-- A `SET` that fits keeps the guarantee. -/
theorem guar_set {h : History Env Call Answer} {data : String} {ttl : ℤ} {r : Option String}
    {e : Env} (hi : Mirrors front code h.now) (he : Exec h.now (.redisSet code' data ttl) r e)
    (hfits : code' = code → SetFits front h.now code data ttl) :
    (mirroring front code).guar q h (.redisSet code' data ttl) r e := by
  refine ⟨hi.exec_set hfits he, ?_, by simp⟩
  rintro d l ⟨⟩
  exact hfits rfl

/-- The insert of a new row keeps the guarantee. -/
theorem guar_insert {h : History Env Call Answer} {url : String} {t : NullTime}
    {r : Option StoreError} {e : Env} (hi : Mirrors front code h.now)
    (he : Exec h.now (.pgInsert code' url t) r e) :
    (mirroring front code).guar q h (.pgInsert code' url t) r e := by
  refine ⟨?_, by simp, by simp⟩
  cases he with
  | pgInsert hnew => exact hi.insert hnew
  | pgInsert_fail msg => exact ⟨hi, .refl _⟩

/-- `Save` without a cache. -/
theorem mirroring_pgSave {url : String} {x : Option Time} {e : Env} :
    (mirroring none code).Safe (.save code' url x) (storeBody none (.save code' url x))
      (.start e) := by
  intro h hx hi r e' he _
  refine ⟨guar_insert hi he, ?_⟩
  cases he with
  | pgInsert hnew => exact Function.update_self _ _ _
  | pgInsert_fail msg => trivial

/-- `Lookup` without a cache. -/
theorem mirroring_pgLookup {e : Env} :
    (mirroring none code).Safe (.lookup code') (storeBody none (.lookup code')) (.start e) := by
  refine Contract.Along.bind ((pgLookup_along (h := .start e) (.refl e)).mono ?_)
  rintro o h ⟨r, rfl, -, hf, hr⟩ hc
  exact (hr hc).returned hf

section

variable {cs : CachedStore}

/-- The end of the miss path: start the backfill, return the value. -/
theorem fill_along {h : History Env Call Answer} {v : LookupResult} {ttl : ℤ}
    {post : Except Empty (Option LookupResult × Option StoreError) →
      History Env Call Answer → Prop}
    (hr : code' = code → ReadBack code h (some v, none))
    (hpost : ∀ h', h'.first = h.first → Onward h.now h'.now → post (.ok (some v, none)) h') :
    (mirroring (some cs) code).Along q
      (do
        goRedisSet code' (cs.json.marshal v) ttl
        return (some v, none)) h post := by
  intro h' hx hi r e he _
  have hon : Onward h.now h'.now := .of_extends hx
  cases he with
  | goRedisSet =>
      -- the backfill takes over what it may assume of its data
      refine ⟨⟨⟨hi, .refl _⟩, by simp, ?_⟩, hpost _ hx.first_eq hon⟩
      rintro c d l ⟨⟩ hc cs' ⟨⟩
      exact (hr hc).backfills hon cs rfl

/-- The miss path after the row was read. -/
theorem found_along {h : History Env Call Answer} {v : LookupResult}
    {post : Except Empty (Option LookupResult × Option StoreError) →
      History Env Call Answer → Prop}
    (hr : code' = code → ReadBack code h (some v, none))
    (hpost : ∀ h', h'.first = h.first → Onward h.now h'.now → post (.ok (some v, none)) h') :
    (mirroring (some cs) code).Along q
      (do
        let ttl ← match v.expiresAt with
          | none => pure cs.ttl
          | some t => do
            let now ← timeNow
            pure (t.sub now)
        goRedisSet code' (cs.json.marshal v) ttl
        return (some v, none)) h post := by
  cases hv : v.expiresAt with
  | none => exact fill_along hr hpost
  | some t =>
      intro h' hx hi r e he _
      have hon : Onward h.now h'.now := .of_extends hx
      cases he with
      | @timeNow offset =>
          refine ⟨guar_same hi rfl rfl rfl (by simp) (by simp), fill_along (fun hc => ?_) ?_⟩
          · obtain ⟨url, t', hrow, hvalid, hval⟩ := hr hc
            exact ⟨url, t', hon.rows _ _ hrow, hvalid, hval⟩
          · intro h'' hfirst hon'
            exact hpost h'' (hfirst.trans hx.first_eq) (hon.trans ⟨hon'.now, hon'.rows⟩)

/-- A lookup that the cache did not answer. -/
theorem mirroring_miss {h : History Env Call Answer} (hf : Onward h.first h.now) :
    (mirroring (some cs) code).Safe (.lookup code')
      (cs.lookupPrimary code' >>= fun r => .ret (.found r.1 r.2)) h := by
  intro h₁ hx₁ hi₁ r₁ e₁ he₁ _
  have hf₁ : Onward h₁.first h₁.now := hf.extended hx₁
  cases he₁ with
  | incCacheMiss =>
      refine ⟨guar_same hi₁ rfl rfl rfl (by simp) (by simp), ?_⟩
      refine Contract.Along.bind (Contract.Along.bind ?_)
      show (mirroring (some cs) code).Along (.lookup code') (PgStore.lookup code' >>= _) _ _
      refine Contract.Along.bind ((pgLookup_along ?_).mono ?_)
      · exact ⟨hf₁.now, hf₁.rows⟩
      · rintro o h₂ ⟨r, rfl, -, hf₂, hr⟩
        rcases r with ⟨_ | v, _ | err⟩
        · exact fun hc => (hr hc).returned hf₂
        · exact fun hc => (hr hc).returned hf₂
        · refine found_along hr fun h₃ hfirst hon hc => ?_
          obtain ⟨url, t, hrow, hvalid, hval⟩ := hr hc
          have hr₃ : ReadBack code h₃ (some v, none) :=
            ⟨url, t, hon.rows _ _ hrow, hvalid, hval⟩
          refine hr₃.returned ?_
          rw [hfirst]
          exact hf₂.trans hon
        · exact fun hc => (hr hc).returned hf₂

/-- `Lookup` behind the cache: a hit is what the entry decodes to. -/
theorem mirroring_lookup {e : Env} :
    (mirroring (some cs) code).Safe (.lookup code') (storeBody (some cs) (.lookup code'))
      (.start e) := by
  intro h₁ hx₁ hi₁ r₁ e₁ he₁ _
  have hf₁ : Onward h₁.first h₁.now := by
    refine Onward.extended ?_ hx₁
    exact .refl e
  cases he₁ with
  | redisGet_fail msg =>
      refine ⟨guar_same hi₁ rfl rfl rfl (by simp) (by simp), mirroring_miss ?_⟩
      exact ⟨hf₁.now, hf₁.rows⟩
  | redisGet =>
      refine ⟨guar_same hi₁ rfl rfl rfl (by simp) (by simp), ?_⟩
      cases hen : h₁.now.live code' with
      | none =>
          refine mirroring_miss ?_
          exact ⟨hf₁.now, hf₁.rows⟩
      | some en =>
          intro h₂ hx₂ hi₂ r₂ e₂ he₂ _
          cases he₂ with
          | incCacheHit =>
              refine ⟨guar_same hi₂ rfl rfl rfl (by simp) (by simp), fun hc => ?_⟩
              subst hc
              intro url t hfirst hfresh hjson
              -- The entry mirrors a row, and the row is the one that was there at the start.
              obtain ⟨url', t', hrow, hdata, -⟩ := hi₁ cs rfl en (Env.redis_of_live hen)
              have hfirst₁ : h₁.first.urls code' = some (url, t) := by
                rw [History.first_own, hx₂.first_eq] at hfirst
                exact hfirst
              rw [hf₁.rows _ _ hfirst₁] at hrow
              cases hrow
              refine .inr ⟨?_, rfl⟩
              rw [hdata (fun hv => (hfresh hv).1) (hjson cs rfl)]

/-- The write-through at the end of a save. -/
theorem write_along {h : History Env Call Answer} {url : String} {x : Option Time} {ttl : ℤ}
    (hrow : h.now.urls code' = some (url, .ofOption x)) (httl : x = none → ttl = cs.ttl) :
    (mirroring (some cs) code).Safe (.save code' url x)
      ((do
        let _ ← redisSet code' (cs.json.marshal ⟨url, x⟩) ttl
        return none : Method (Option StoreError)) >>= fun err => .ret (.saved err)) h := by
  intro h' hx hi r e he _
  have hrow' := (Onward.of_extends hx).rows _ _ hrow
  have hfits : code' = code →
      SetFits (some cs) h'.now code (cs.json.marshal ⟨url, x⟩) ttl := by
    rintro rfl cs' ⟨⟩
    refine ⟨url, _, hrow', fun _ hjson => ?_, fun hv hpos => ?_⟩
    · rw [NullTime.toOption_ofOption] at hjson ⊢
      exact hjson
    · -- only a link without expiry gets the default lifetime
      cases x with
      | some t => cases hv
      | none =>
          rw [httl rfl]
          exact ⟨hpos, le_refl _⟩
  exact ⟨guar_set hi he hfits, (hi.exec_set hfits he).2.rows _ _ hrow'⟩

/-- `Save` behind the cache. -/
theorem mirroring_save {url : String} {x : Option Time} {e : Env} :
    (mirroring (some cs) code).Safe (.save code' url x) (storeBody (some cs) (.save code' url x))
      (.start e) := by
  intro h₁ hx₁ hi₁ r₁ e₁ he₁ _
  refine ⟨guar_insert hi₁ he₁, ?_⟩
  cases he₁ with
  | pgInsert_fail msg => trivial
  | pgInsert hnew =>
      have hrow : (h₁.now.insert code' url (.ofOption x)).urls code' = some (url, .ofOption x) :=
        Function.update_self _ _ _
      cases x with
      | none => exact write_along hrow fun _ => rfl
      | some t =>
          intro h₂ hx₂ hi₂ r₂ e₂ he₂ _
          have hrow₂ := (Onward.of_extends hx₂).rows _ _ hrow
          cases he₂ with
          | timeNow =>
              exact ⟨guar_same hi₂ rfl rfl rfl (by simp) (by simp),
                write_along hrow₂ fun hnone => by cases hnone⟩

/-- A backfill. -/
theorem mirroring_backfill {data : String} {ttl : ℤ} {e : Env}
    (hpre : code' = code → Backfills (some cs) e code data) :
    (mirroring (some cs) code).Safe (.backfill code' data ttl)
      (storeBody (some cs) (.backfill code' data ttl)) (.start e) := by
  intro h hx hi r e' he _
  refine ⟨guar_set hi he fun hc cs' hcs => ?_, trivial⟩
  obtain ⟨url, t, hrow, hv, hdata⟩ := hpre hc cs' hcs
  refine ⟨url, t, (Onward.of_extends hx).rows _ _ hrow, hdata, fun hnever => ?_⟩
  rw [hv] at hnever
  cases hnever

end

theorem mirroring_holds : (mirroring front code).Holds where
  drift e e' hi hd := hi.drift hd
  call q h c r e hi he hg := by
    refine ⟨hg.1.1, hg.1.2, fun q' hq' => ?_⟩
    cases c <;>
      simp only [storeSystem, spawned, List.mem_singleton, List.not_mem_nil] at hq'
    rw [hq']
    exact hg.2.2 _ _ _ rfl
  arrive q e hq _ := by
    cases q with
    | save code' url x => trivial
    | lookup code' => trivial
    | backfill code' data ttl => exact hq.elim
  body q e _ hq := by
    cases front with
    | none =>
        cases q with
        | save code' url x => exact mirroring_pgSave
        | lookup code' => exact mirroring_pgLookup
        | backfill code' data ttl => trivial
    | some cs =>
        cases q with
        | save code' url x => exact mirroring_save
        | lookup code' => exact mirroring_lookup
        | backfill code' data ttl => exact mirroring_backfill hq

end

end EngineeringLab.Shortener
