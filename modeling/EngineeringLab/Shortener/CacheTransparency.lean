/-
The cache is transparent for links without expiry.

Redis and Postgres are updated without a transaction: a `Save` writes the one and
then the other, a backfill still holds a value when the `Lookup` that read it has
long returned, and either side may fail at any step. What keeps them together is
that nothing ever changes a row of `urls` once it is inserted, and that a value
reaches Redis only after its row is in Postgres. So the cache, and every backfill
in flight, is at every moment a sub-relation of the primary (`CachedStore.Agrees`).

Since the row is there before the entry and stays, a hit is never out of date: what the
cache says, Postgres says at the same moment. A miss is answered by Postgres itself, and
what the goroutine writes back later is still backed then. The proof needs of each call only
what it does to this relation, and of the other requests only that rows stay (`RowsStay`).

What a lookup may answer apart from that is the error of its own `SELECT` (`SelectFailed`).
A Redis that cannot be reached costs the lookup a query and nothing else, and so does an
entry that was evicted. The JSON encoding is a parameter, of which one round trip is asked
for (`Json.Faithful`).
-/
import EngineeringLab.Shortener.Store

set_option autoImplicit false

open Concurrency

namespace EngineeringLab.Shortener

/-- What the cache needs of `encoding/json`: the URL of a permanent link (as `Save`
caches it, or as `PgStore.Lookup` returns it) survives the encoding. -/
def Json.Faithful (json : Json) : Prop :=
  ∀ url t, t = none ∨ t = some Time.zero → (json.unmarshal (json.marshal ⟨url, t⟩)).url = url

/-- `data` decodes to the URL that Postgres holds under `code`. -/
def CachedStore.Backed (cs : CachedStore) (e : Env) (code data : String) : Prop :=
  ∃ url t, e.urls code = some (url, t) ∧ (cs.json.unmarshal data).url = url

/-- No row expires, and every Redis entry agrees with its row. -/
structure CachedStore.Agrees (cs : CachedStore) (e : Env) : Prop where
  permanent : ∀ code url t, e.urls code = some (url, t) → t.valid = false
  backed : ∀ code en, e.redis code = some en → cs.Backed e code en.data

/-- Rows stay. -/
def RowsStay (e e' : Env) : Prop := ∀ code row, e.urls code = some row → e'.urls code = some row

theorem RowsStay.refl (e : Env) : RowsStay e e := fun _ _ h => h

theorem RowsStay.trans {e e' e'' : Env} (h : RowsStay e e') (h' : RowsStay e' e'') :
    RowsStay e e'' := fun code row hr => h' code row (h code row hr)

theorem RowsStay.of_path {e e' : Env} (h : Relation.ReflTransGen RowsStay e e') :
    RowsStay e e' := by
  induction h with
  | refl => exact .refl _
  | tail _ hs ih => exact ih.trans hs

/-- The others' steps during a call keep the rows too. -/
theorem RowsStay.of_extends {inv : Env → Prop} {h h' : History Env Call Answer}
    (hx : History.Extends inv RowsStay h h') : RowsStay h.now h'.now :=
  hx.rel RowsStay.refl RowsStay.trans (fun hs => hs)

/-- From the start of a request to now, and so to any later now. -/
theorem RowsStay.extended {inv : Env → Prop} {h h' : History Env Call Answer}
    (hr : RowsStay h.first h.now) (hx : History.Extends inv RowsStay h h') :
    RowsStay h'.first h'.now := by
  rw [hx.first_eq]
  exact hr.trans (.of_extends hx)

theorem CachedStore.Backed.mono {cs : CachedStore} {e e' : Env} {code data : String}
    (h : cs.Backed e code data) (hr : RowsStay e e') : cs.Backed e' code data := by
  obtain ⟨url, t, hrow, hu⟩ := h
  exact ⟨url, t, hr _ _ hrow, hu⟩

/-! ## What each atomic step keeps -/

theorem CachedStore.Agrees.drift {cs : CachedStore} {e e' : Env} (h : cs.Agrees e)
    (hd : Drift e e') : cs.Agrees e' ∧ RowsStay e e' := by
  have hstay : RowsStay e e' := fun code row hr => by rw [hd.urls]; exact hr
  refine ⟨⟨fun code url t hr => h.permanent code url t (by rwa [hd.urls] at hr), ?_⟩, hstay⟩
  intro code en hen
  rcases hd.redis code with hr | hr
  · exact (h.backed code en (by rwa [hr] at hen)).mono hstay
  · rw [hr] at hen; cases hen

/-- A step that touches neither the table nor the cache. -/
theorem CachedStore.Agrees.same {cs : CachedStore} {e e' : Env} (h : cs.Agrees e)
    (hu : e'.urls = e.urls) (hr : e'.redis = e.redis) : cs.Agrees e' ∧ RowsStay e e' := by
  have hstay : RowsStay e e' := fun code row hrow => by rw [hu]; exact hrow
  exact ⟨⟨fun code url t hrow => h.permanent code url t (by rwa [hu] at hrow),
    fun code en hen => (h.backed code en (by rwa [hr] at hen)).mono hstay⟩, hstay⟩

theorem CachedStore.Agrees.insert {cs : CachedStore} {e : Env} (h : cs.Agrees e)
    {code url : String} (hnew : e.urls code = none) :
    cs.Agrees (e.insert code url (.ofOption none)) ∧
      RowsStay e (e.insert code url (.ofOption none)) := by
  have hstay : RowsStay e (e.insert code url (.ofOption none)) := by
    intro code' row hrow
    have hne : code' ≠ code := by rintro rfl; rw [hnew] at hrow; cases hrow
    simpa [Env.insert, Function.update_of_ne hne] using hrow
  refine ⟨⟨?_, fun code' en hen => (h.backed code' en hen).mono hstay⟩, hstay⟩
  intro code' url' t hrow
  by_cases hc : code' = code
  · subst hc
    simp only [Env.insert, Function.update_self, Option.some.injEq, Prod.mk.injEq] at hrow
    rw [← hrow.2]; rfl
  · exact h.permanent code' url' t (by simpa [Env.insert, Function.update_of_ne hc] using hrow)

theorem CachedStore.Agrees.set {cs : CachedStore} {e : Env} (h : cs.Agrees e)
    {code data : String} {ttl : ℤ} (hb : cs.Backed e code data) :
    cs.Agrees (e.set code data ttl) ∧ RowsStay e (e.set code data ttl) := by
  have hstay : RowsStay e (e.set code data ttl) := fun _ _ hrow => hrow
  refine ⟨⟨fun c u t hrow => h.permanent c u t hrow, ?_⟩, hstay⟩
  intro code' en hen
  by_cases hc : code' = code
  · subst hc
    simp only [Env.set, Function.update_self, Option.some.injEq] at hen
    rw [← hen]; exact hb.mono hstay
  · exact (h.backed code' en (by simpa [Env.set, Function.update_of_ne hc] using hen)).mono hstay

/-- A `SET` of a backed value keeps the agreement whether it succeeds, fails, or
fails after it reached Redis. -/
theorem CachedStore.Agrees.exec_set {cs : CachedStore} {e e' : Env} (h : cs.Agrees e)
    {code data : String} {ttl : ℤ} (hb : cs.Backed e code data) {r : Option String}
    (he : Exec e (.redisSet code data ttl) r e') : cs.Agrees e' ∧ RowsStay e e' := by
  cases he with
  | redisSet => exact h.set hb
  | redisSet_lost msg => exact ⟨h, .refl _⟩
  | redisSet_late msg => exact h.set hb

/-- An entry that a `GET` finds is in the cache. -/
theorem Env.redis_of_live {e : Env} {code : String} {en : Entry} (h : e.live code = some en) :
    e.redis code = some en := by
  unfold Env.live at h
  split at h
  · split at h
    · cases h; assumption
    · cases h
  · cases h; assumption
  · cases h

/-! ## The contract -/

/-- Saves without expiry, and lookups: what the store is asked for while no link ends. A
backfill is not asked for, a lookup starts it. -/
def permanentOnly : Request → Prop
  | .save _ _ expiresAt => expiresAt = none
  | .lookup _ => True
  | .backfill .. => False

/-- The error is the one that the request's own `SELECT` of `code` came back with. An
error of Redis never gets that far, and an error of another request's `SELECT` is not
this request's. -/
def SelectFailed (code : String) (err : Option StoreError) (h : History Env Call Answer) : Prop :=
  ∃ msg, err = some (.database msg) ∧ ⟨.pgSelect code, .error (.database msg)⟩ ∈ h.calls

theorem not_selectFailed_none {code : String} {h : History Env Call Answer} :
    ¬ SelectFailed code none h := by
  rintro ⟨msg, hnone, -⟩
  cases hnone

/-- What a lookup of `code` owes: the error of its own `SELECT`, or the answer Postgres
alone gives at some moment of the call, and a row present from the start is found. -/
def Transparent (code : String) (res : Option LookupResult) (err : Option StoreError)
    (h : History Env Call Answer) : Prop :=
  SelectFailed code err h ∨
    (err = none ∧
      (∃ m ∈ h.moments, (PgStore.lookupAt m code).2 = none ∧
        res.map (·.url) = (PgStore.lookupAt m code).1.map (·.url)) ∧
      ∀ url t, h.first.urls code = some (url, t) → res.map (·.url) = some url)

def CachedStore.transparency (cs : CachedStore) : Contract (cs.system permanentOnly) where
  inv := cs.Agrees
  rely := RowsStay
  pre q e := match q with
    | .save _ _ expiresAt => expiresAt = none
    | .lookup _ => True
    | .backfill code data _ => cs.Backed e code data
  ok := anyCall
  guar _ h c _ e := (cs.Agrees e ∧ RowsStay h.now e) ∧
    ∀ code data ttl, c = .goRedisSet code data ttl → cs.Backed e code data
  post q r h := match q, r with
    | .save code url _, .ok (.saved none) => ∃ t, h.now.urls code = some (url, t)
    | .lookup code, .ok (.found res err) => Transparent code res err h
    | _, _ => True

section

variable {cs : CachedStore}

/-- The backfill: one `SET` of a value that is still backed when it lands. -/
theorem transparency_backfill {code data : String} {ttl : ℤ} {e : Env}
    (hb : cs.Backed e code data) :
    cs.transparency.Safe (.backfill code data ttl) (cs.body (.backfill code data ttl))
      (.start e) := by
  intro h' hx hi r e' he _
  refine ⟨⟨?_, by simp⟩, trivial⟩
  exact CachedStore.Agrees.exec_set hi (hb.mono (.of_extends hx)) he

/-- `Save`: the row first, then a value that the row backs. -/
theorem transparency_save (hjson : cs.json.Faithful) {code url : String} {e : Env} :
    cs.transparency.Safe (.save code url none) (cs.body (.save code url none)) (.start e) := by
  intro h₁ hx₁ hi₁ r₁ e₁ he₁ _
  cases he₁ with
  | pgInsert_fail msg =>
      exact ⟨⟨⟨hi₁, .refl _⟩, by simp⟩, trivial⟩
  | pgInsert hnew =>
      have hrow :
          (h₁.now.insert code url (.ofOption none)).urls code = some (url, .ofOption none) := by
        simp [Env.insert]
      refine ⟨⟨CachedStore.Agrees.insert hi₁ hnew, by simp⟩, ?_⟩
      intro h₂ hx₂ hi₂ r₂ e₂ he₂ _
      have hrow₂ := RowsStay.of_extends hx₂ code _ hrow
      have hb : cs.Backed h₂.now code (cs.json.marshal ⟨url, none⟩) :=
        ⟨url, _, hrow₂, hjson url none (.inl rfl)⟩
      have hset := CachedStore.Agrees.exec_set hi₂ hb he₂
      exact ⟨⟨hset, by simp⟩, ⟨_, hset.2 _ _ hrow₂⟩⟩

/-- A hit: the entry agrees with its row, so Postgres gives the same URL right now. -/
theorem transparent_hit {code : String} {en : Entry} {h : History Env Call Answer}
    {e : Env} (hm : e ∈ h.moments) (hi : cs.Agrees e) (hr : RowsStay h.first e)
    (hen : e.live code = some en) :
    Transparent code (some (cs.json.unmarshal en.data)) none h := by
  obtain ⟨url, t, hrow, hu⟩ := hi.backed code en (Env.redis_of_live hen)
  have hat := PgStore.lookupAt_permanent hrow (hi.permanent code url t hrow)
  refine .inr ⟨rfl, ⟨e, hm, by rw [hat], by rw [hat]; simp [hu]⟩, ?_⟩
  intro url' t' hfirst
  have heq := hr code _ hfirst
  rw [hrow] at heq
  cases heq
  simp [hu]

/-- A miss answered by the row that Postgres holds at moment `e`. -/
theorem transparent_row {code url : String} {t : NullTime} {h : History Env Call Answer}
    {e : Env} (hm : e ∈ h.moments) (hi : cs.Agrees e) (hr : RowsStay h.first e)
    (hrow : e.urls code = some (url, t)) :
    Transparent code (some ⟨url, some .zero⟩) none h := by
  have hat := PgStore.lookupAt_permanent hrow (hi.permanent code url t hrow)
  refine .inr ⟨rfl, ⟨e, hm, by rw [hat], by rw [hat]⟩, ?_⟩
  intro url' t' hfirst
  have heq := hr code _ hfirst
  rw [hrow] at heq
  cases heq
  rfl

/-- A miss with no row at moment `e`. -/
theorem transparent_absent {code : String} {h : History Env Call Answer}
    {e : Env} (hm : e ∈ h.moments) (hr : RowsStay h.first e) (hrow : e.urls code = none) :
    Transparent code none none h := by
  have hat := PgStore.lookupAt_absent hrow
  refine .inr ⟨rfl, ⟨e, hm, by rw [hat], by rw [hat]⟩, ?_⟩
  intro url' t' hfirst
  have heq := hr code _ hfirst
  rw [hrow] at heq
  cases heq

/-- The miss path, from a history `h` in which no row was lost since the start. -/
theorem transparency_miss (hjson : cs.json.Faithful) {code : String}
    {h : History Env Call Answer} (hr : RowsStay h.first h.now) :
    cs.transparency.Safe (.lookup code)
      (cs.lookupPrimary code >>= fun r => .ret (.found r.1 r.2)) h := by
  intro h₂ hx₂ hi₂ r₂ e₂ he₂ _
  have hr₂ : RowsStay h₂.first h₂.now := hr.extended hx₂
  cases he₂ with
  | incCacheMiss =>
      refine ⟨⟨hi₂.same rfl rfl, by simp⟩, ?_⟩
      intro h₃ hx₃ hi₃ r₃ e₃ he₃ _
      have hr₃ : RowsStay h₃.first h₃.now := by
        refine RowsStay.extended ?_ hx₃
        exact hr₂
      have hm₃ : h₃.now ∈ h₃.moments := h₃.now_mem_moments
      cases he₃ with
      | pgSelect_fail msg =>
          exact ⟨⟨hi₃.same rfl rfl, by simp⟩, .inl ⟨msg, rfl, List.mem_cons_self⟩⟩
      | pgSelect =>
          refine ⟨⟨hi₃.same rfl rfl, by simp⟩, ?_⟩
          cases hrow : h₃.now.urls code with
          | none =>
              simp only [Option.map_none]
              exact transparent_absent (List.mem_cons_of_mem _ hm₃) hr₃ hrow
          -- A row without expiry, as the invariant says: the primary does not read the clock.
          | some row =>
              obtain ⟨url, t⟩ := row
              have ht : t.valid = false := hi₃.permanent code url t hrow
              simp only [Option.map_some, readRow, ht, Bool.false_eq_true, if_false]
              intro h₄ hx₄ hi₄ r₄ e₄ he₄ _
              cases he₄ with
              | timeNow =>
                  refine ⟨⟨hi₄.same rfl rfl, by simp⟩, ?_⟩
                  intro h₅ hx₅ hi₅ r₅ e₅ he₅ _
                  cases he₅ with
                  | goRedisSet =>
                      -- The row is still there when the entry is written.
                      have hrow₅ : h₅.now.urls code = some (url, t) :=
                        RowsStay.of_extends hx₅ _ _ (RowsStay.of_extends hx₄ _ _ hrow)
                      have hr₄ : RowsStay h₄.first h₄.now := by
                        refine RowsStay.extended ?_ hx₄
                        exact hr₃
                      have hr₅ : RowsStay h₅.first h₅.now := by
                        refine RowsStay.extended ?_ hx₅
                        exact hr₄
                      refine ⟨⟨hi₅.same rfl rfl, ?_⟩, ?_⟩
                      · rintro c d l ⟨⟩
                        exact ⟨url, t, hrow₅, hjson url _ (.inr rfl)⟩
                      · exact transparent_row
                          (List.mem_cons_of_mem _ h₅.now_mem_moments) hi₅ hr₅ hrow₅

/-- `Lookup`: a hit returns what the cache holds, everything else is a miss. -/
theorem transparency_lookup (hjson : cs.json.Faithful) {code : String} {e : Env} :
    cs.transparency.Safe (.lookup code) (cs.body (.lookup code)) (.start e) := by
  intro h₁ hx₁ hi₁ r₁ e₁ he₁ _
  have hr₁ : RowsStay h₁.first h₁.now := by
    refine RowsStay.extended ?_ hx₁
    exact .refl e
  cases he₁ with
  -- a GET that fails is a miss, as an absent entry is
  | redisGet_fail msg =>
      refine ⟨⟨hi₁.same rfl rfl, by simp⟩, ?_⟩
      refine transparency_miss hjson ?_
      exact hr₁
  | redisGet =>
      refine ⟨⟨hi₁.same rfl rfl, by simp⟩, ?_⟩
      cases hen : h₁.now.live code with
      | none =>
          refine transparency_miss hjson ?_
          exact hr₁
      | some en =>
          intro h₂ hx₂ hi₂ r₂ e₂ he₂ _
          cases he₂ with
          | incCacheHit =>
              refine ⟨⟨hi₂.same rfl rfl, by simp⟩, ?_⟩
              -- the counter comes later, so the moment of the GET is one of the lookup
              have hm : h₁.now ∈ h₂.moments :=
                hx₂.moments_subset (List.mem_cons_of_mem _ h₁.now_mem_moments)
              refine transparent_hit (List.mem_cons_of_mem _ hm) hi₁ ?_ hen
              rw [History.first_own, hx₂.first_eq]
              exact hr₁

theorem transparency_holds (hjson : cs.json.Faithful) : cs.transparency.Holds where
  drift e e' hi hd := hi.drift hd
  call q h c r e hi he hg := by
    refine ⟨hg.1.1, hg.1.2, fun q' hq' => ?_⟩
    cases c <;> simp only [CachedStore.system, spawned, List.mem_singleton, List.not_mem_nil] at hq'
    rw [hq']
    exact hg.2 _ _ _ rfl
  arrive q e hq _ := by
    cases q with
    | save code url expiresAt => exact hq
    | lookup code => trivial
    | backfill code data ttl => exact hq.elim
  body q e _ hq := by
    cases q with
    | save code url expiresAt =>
        have hnone : expiresAt = none := hq
        subst hnone
        exact transparency_save hjson
    | lookup code => exact transparency_lookup hjson
    | backfill code data ttl => exact transparency_backfill hq

end

/-! ## Every interleaving -/

/-- **The cache is transparent.** A lookup that returned, in any interleaving of
saves without expiry and lookups, with failures, lost entries and late backfills,
gave the error of its own `SELECT` or the answer of Postgres alone at a moment of the
call; and once a save of `code` has returned, a lookup that arrives later finds its URL. -/
theorem lookup_transparent {cs : CachedStore} (hjson : cs.json.Faithful) {e₀ : Env}
    (h₀ : cs.Agrees e₀) {w w' : World Env Request Call Answer Empty Reply}
    (hw : (cs.system permanentOnly).Reach anyCall e₀ w)
    (hw' : Relation.ReflTransGen ((cs.system permanentOnly).Step anyCall) w w') :
    (∀ t ∈ w.threads, ∀ code res err, t.req = .lookup code → t.prog = .ret (.found res err) →
      SelectFailed code err t.past ∨
        (err = none ∧ ∃ m ∈ t.past.moments, (PgStore.lookupAt m code).2 = none ∧
          res.map (·.url) = (PgStore.lookupAt m code).1.map (·.url))) ∧
    (∀ s ∈ w.threads, ∀ code url, s.req = .save code url none → s.prog = .ret (.saved none) →
      ∀ i t, w.threads.length ≤ i → w'.threads[i]? = some t →
        ∀ res err, t.req = .lookup code → t.prog = .ret (.found res err) →
          SelectFailed code err t.past ∨ (err = none ∧ res.map (·.url) = some url)) := by
  have hK := transparency_holds hjson
  have hpost : ∀ {v : World Env Request Call Answer Empty Reply},
      (cs.system permanentOnly).Reach anyCall e₀ v → ∀ t ∈ v.threads, ∀ code res err,
        t.req = .lookup code → t.prog = .ret (.found res err) →
          Transparent code res err t.past := by
    intro v hv t ht code res err hreq hprog
    have hp := Contract.sound_post hK h₀ hv ht hprog
    simpa [CachedStore.transparency, hreq] using hp
  constructor
  · intro t ht code res err hreq hprog
    rcases hpost hw t ht code res err hreq hprog with h | ⟨h, hm, -⟩
    · exact .inl h
    · exact .inr ⟨h, hm⟩
  · intro s hs code url hreq hprog i t hi ht res err hreqt hprogt
    have hgood := Contract.sound hK h₀ hw
    -- the row is there when the save returns, and stays for every later arrival
    obtain ⟨u, hrow⟩ : ∃ u, s.past.now.urls code = some (url, u) := by
      have hp := Contract.sound_post hK h₀ hw hs hprog
      simpa [CachedStore.transparency, hreq] using hp
    have hrow_t := RowsStay.of_path (hgood.since_later hK hw' hs hi ht) code _ hrow
    rcases hpost (hw.trans hw') t (List.mem_of_getElem? ht) code res err hreqt hprogt
      with h | ⟨h, -, hfound⟩
    · exact .inl h
    · exact .inr ⟨h, hfound url u hrow_t⟩

/-! ### An instance: a save, then a lookup -/

/-- The JSON text of a permanent link up to its URL. -/
def jsonHead : List Char := "\x7b\"URL\":\"".toList

/-- The rest of the text when `ExpiresAt` is `nil`. -/
def jsonNull : List Char := "\",\"ExpiresAt\":null\x7d".toList

/-- The rest of the text when `ExpiresAt` points to the zero time. -/
def jsonZero : List Char := "\",\"ExpiresAt\":\"0001-01-01T00:00:00Z\"\x7d".toList

/-- `encoding/json` on a permanent link whose URL needs no escape. -/
def plainJson : Json where
  marshal r := String.ofList (jsonHead ++ (r.url.toList ++
    if r.expiresAt = none then jsonNull else jsonZero))
  unmarshal s :=
    let l := s.toList.drop jsonHead.length
    if jsonNull <:+ l then ⟨String.ofList (l.take (l.length - jsonNull.length)), none⟩
    else ⟨String.ofList (l.take (l.length - jsonZero.length)), some .zero⟩

theorem plainJson_faithful : plainJson.Faithful := by
  intro url t ht
  have hzero : ∀ u : List Char, ¬ jsonNull <:+ (u ++ jsonZero) := by
    intro u h
    have := List.suffix_of_suffix_length_le h (List.suffix_append u jsonZero) (by decide)
    exact absurd this (by decide)
  rcases ht with rfl | rfl
  · simp [plainJson]
  · simp [plainJson, hzero]

/-- The production wiring's default lifetime: ten minutes. -/
def plainCache : CachedStore := ⟨plainJson, 600 * 1000000000⟩

theorem agrees_empty (cs : CachedStore) : cs.Agrees .empty where
  permanent _ _ _ h := by cases h
  backed _ _ h := by cases h

/-- The world after a save of one link has made its two calls. -/
def afterSave : World Env Request Call Answer Empty Reply :=
  (plainCache.system permanentOnly).playAll answer ⟨.empty, []⟩
    [.arrive (.save "aZ3kQ9x" "https://example.com" none), .call 0, .call 0]

/-- The world after a lookup of it, which the cache answers. -/
def afterLookup : World Env Request Call Answer Empty Reply :=
  (plainCache.system permanentOnly).playAll answer afterSave
    [.arrive (.lookup "aZ3kQ9x"), .call 1, .call 1]

theorem reach_afterSave : (plainCache.system permanentOnly).Reach anyCall .empty afterSave := by
  refine System.reach_play exec_answer (fun m hm => ?_) (System.meets_anyCall _ _)
  simp only [List.mem_cons, List.not_mem_nil, or_false] at hm
  rcases hm with rfl | rfl | rfl <;> trivial

theorem steps_afterLookup : Relation.ReflTransGen
    ((plainCache.system permanentOnly).Step anyCall) afterSave afterLookup := by
  refine System.steps_play exec_answer (fun m hm => ?_) (System.meets_anyCall _ _)
  simp only [List.mem_cons, List.not_mem_nil, or_false] at hm
  rcases hm with rfl | rfl | rfl <;> trivial

theorem ended_afterSave : afterSave.ended 0 =
    some (.save "aZ3kQ9x" "https://example.com" none, .ok (.saved none)) := by
  decide +kernel

theorem ended_afterLookup : afterLookup.ended 1 =
    some (.lookup "aZ3kQ9x", .ok (.found (some ⟨"https://example.com", none⟩) none)) := by
  decide +kernel

/-- The lookup that arrives after the save is answered by the cache, without an error, and
as Postgres would have answered at a moment of the call. -/
theorem lookup_transparent_example :
    ∃ t res err, afterLookup.threads[1]? = some t ∧ t.prog = .ret (.found res err) ∧
      err = none ∧ res.map (·.url) = some "https://example.com" ∧
      ∃ m ∈ t.past.moments, (PgStore.lookupAt m "aZ3kQ9x").2 = none ∧
        (PgStore.lookupAt m "aZ3kQ9x").1.map (·.url) = some "https://example.com" := by
  obtain ⟨s, hs, hsreq, hsprog⟩ := World.thread_of_ended ended_afterSave
  obtain ⟨t, ht, htreq, htprog⟩ := World.thread_of_ended ended_afterLookup
  have hlen : afterSave.threads.length ≤ 1 := by decide +kernel
  have hjson : plainCache.json.Faithful := plainJson_faithful
  have hreach : (plainCache.system permanentOnly).Reach anyCall .empty afterLookup :=
    reach_afterSave.trans steps_afterLookup
  -- The lookup ended without an error, so neither half of the theorem leaves a choice.
  have hlater := (lookup_transparent hjson (agrees_empty _) reach_afterSave steps_afterLookup).2 s
    (List.mem_of_getElem? hs) _ _ hsreq hsprog 1 t hlen ht _ _ htreq htprog
  have hmoment := (lookup_transparent hjson (agrees_empty _) hreach .refl).1 t
    (List.mem_of_getElem? ht) _ _ _ htreq htprog
  obtain ⟨herr, hurl⟩ := hlater.resolve_left not_selectFailed_none
  obtain ⟨-, m, hm, hpg, hsame⟩ := hmoment.resolve_left not_selectFailed_none
  exact ⟨t, _, _, ht, htprog, herr, hurl, m, hm, hpg, hsame ▸ hurl⟩

end EngineeringLab.Shortener
