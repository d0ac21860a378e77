/-
What the cache answers, with `encoding/json` as it is.

In any interleaving of saves and lookups, with expiries in any zone that is less than a day away
from UTC, with failures, lost entries and late backfills, a lookup that finds a link gives the
link that was saved under its code, whoever answers: its URL, and its expiry as it was asked for
or as the column shows it (`lookup_own_link`). Rows are never changed, every entry of Redis is
read as its row can be shown (`LinksKept`), and what is shown can be written again and read as it
was.

The parameter of the modules before, the JSON encoding, is now the one of the repository.
What is left to be assumed is what cannot be had otherwise: the offset of the expiry must be
one that `encoding/json` can write. Instants may have nanoseconds; the column keeps
microseconds, and what comes back from it is what the column shows, which is read and
written without further loss.

`Shown` is the relation between a row and a link that may be shown for it. Both the
write-through and the backfill put links of that kind into the cache, and both ways of
answering a lookup take them out again.
-/
import EngineeringLab.Shortener.CacheEntries
import EngineeringLab.Shortener.Encoding

set_option autoImplicit false

open Calendar Concurrency

namespace EngineeringLab.Shortener

/-- `CachedStore` as `main` makes it. -/
def goCache (ttl : ℤ) : CachedStore := ⟨encodingJson, ttl⟩

/-- What a row may be answered as: the link that was saved, or the row as it is read. -/
def Shows (row : String × NullTime) (r : LookupResult) : Prop :=
  r = ⟨row.1, row.2.toOption⟩ ∨ r = ⟨row.1, some (readRow row).2.time⟩

/-- What the row of `code` may be answered as. -/
def Shown (e : Env) (code : String) (r : LookupResult) : Prop :=
  ∃ row, e.urls code = some row ∧ Shows row r

/-- Every expiry is read as it is written, and every entry as its row can be shown. -/
structure LinksKept (e : Env) : Prop where
  exact : ∀ code row, e.urls code = some row → ∀ t ∈ row.2.toOption, t.Exact
  shown : ∀ code en, e.redis code = some en → Shown e code (encodingJson.unmarshal en.data)

theorem Shown.mono {e e' : Env} {code : String} {r : LookupResult} (h : Shown e code r)
    (hr : RowsStay e e') : Shown e' code r := by
  obtain ⟨row, hrow, hshows⟩ := h
  exact ⟨row, hr _ _ hrow, hshows⟩

/-! ## Columns -/

theorem Time.exact_zero : Time.zero.Exact := by
  refine ⟨Time.writable_iff.mpr ?_, by decide⟩
  decide +kernel

/-- The column shows the same day. -/
theorem Time.Exact.column {t : Time} (h : t.Exact) : (timestampColumn t).Exact := by
  obtain ⟨hyear, -⟩ := Time.writable_iff.mp h.1
  have hzone : (timestampColumn t).offset = 0 := rfl
  refine ⟨Time.writable_iff.mpr ⟨?_, by rw [hzone]; decide⟩, by rw [hzone]; decide⟩
  have hday : ((t.instant + t.offset * 1000000000) / 1000 * 1000 + 0 * 1000000000) /
      86400000000000 = (t.instant + t.offset * 1000000000) / 86400000000000 := by omega
  unfold Time.stamp Stamp.wall DateTime.ofNanos timestampColumn at *
  dsimp only at hyear ⊢
  rw [hday]
  exact hyear

theorem exact_readRow {row : String × NullTime} (h : ∀ t ∈ row.2.toOption, t.Exact) :
    (readRow row).2.time.Exact := by
  unfold readRow
  by_cases hvalid : row.2.valid = true
  · rw [if_pos hvalid]
    apply Time.Exact.column
    apply h
    rw [NullTime.toOption, if_pos hvalid]
    rfl
  · rw [if_neg hvalid]
    exact Time.exact_zero

/-- What a row shows can be cached. -/
theorem Shows.cached {row : String × NullTime} {r : LookupResult} (hs : Shows row r)
    (h : ∀ t ∈ row.2.toOption, t.Exact) :
    encodingJson.unmarshal (encodingJson.marshal r) = r := by
  rw [encodingJson_round_trip_iff]
  rcases hs with rfl | rfl
  · exact h
  · intro t ht
    rw [Option.mem_some] at ht
    rw [← ht]
    exact exact_readRow h

/-! ## What each atomic step keeps -/

theorem LinksKept.drift {e e' : Env} (h : LinksKept e) (hd : Drift e e') :
    LinksKept e' ∧ RowsStay e e' := by
  have hstay : RowsStay e e' := fun code row hrow => by rwa [hd.urls]
  refine ⟨⟨fun code row hrow => h.exact code row (by rwa [hd.urls] at hrow), ?_⟩, hstay⟩
  intro code en hen
  rcases hd.redis code with hsame | hlost
  · rw [hsame] at hen
    exact (h.shown code en hen).mono hstay
  · rw [hlost] at hen
    cases hen

/-- A step that touches neither the table nor the cache. -/
theorem LinksKept.same {e e' : Env} (h : LinksKept e) (hu : e'.urls = e.urls)
    (hr : e'.redis = e.redis) : LinksKept e' ∧ RowsStay e e' := by
  have hstay : RowsStay e e' := fun code row hrow => by rwa [hu]
  refine ⟨⟨fun code row hrow => h.exact code row (by rwa [hu] at hrow), ?_⟩, hstay⟩
  intro code en hen
  rw [hr] at hen
  exact (h.shown code en hen).mono hstay

theorem LinksKept.insert {e : Env} (h : LinksKept e) {code url : String} {x : Option Time}
    (hnew : e.urls code = none) (hx : ∀ t ∈ x, t.Exact) :
    LinksKept (e.insert code url (.ofOption x)) ∧
      RowsStay e (e.insert code url (.ofOption x)) := by
  have hstay : RowsStay e (e.insert code url (.ofOption x)) := by
    intro code' row hrow
    have hne : code' ≠ code := by
      rintro rfl
      rw [hnew] at hrow
      cases hrow
    unfold Env.insert
    dsimp only
    rwa [Function.update_of_ne hne]
  refine ⟨⟨?_, fun code' en hen => (h.shown code' en hen).mono hstay⟩, hstay⟩
  intro code' row hrow
  unfold Env.insert at hrow
  dsimp only at hrow
  by_cases hc : code' = code
  · rw [hc, Function.update_self, Option.some.injEq] at hrow
    rw [← hrow, NullTime.toOption_ofOption]
    exact hx
  · rw [Function.update_of_ne hc] at hrow
    exact h.exact code' row hrow

theorem LinksKept.set {e : Env} (h : LinksKept e) {code data : String} {ttl : ℤ}
    (hshown : Shown e code (encodingJson.unmarshal data)) :
    LinksKept (e.set code data ttl) ∧ RowsStay e (e.set code data ttl) := by
  refine ⟨⟨h.exact, ?_⟩, fun _ _ hrow => hrow⟩
  intro code' en hen
  unfold Env.set at hen
  dsimp only at hen
  by_cases hc : code' = code
  · rw [hc, Function.update_self, Option.some.injEq] at hen
    rw [hc, ← hen]
    exact hshown
  · rw [Function.update_of_ne hc] at hen
    exact h.shown code' en hen

/-- A `SET` that succeeds, fails, or fails after it reached Redis. -/
theorem LinksKept.exec_set {e e' : Env} (h : LinksKept e) {code data : String} {ttl : ℤ}
    (hshown : Shown e code (encodingJson.unmarshal data)) {r : Option String}
    (he : Exec e (.redisSet code data ttl) r e') : LinksKept e' ∧ RowsStay e e' := by
  cases he with
  | redisSet => exact h.set hshown
  | redisSet_lost msg => exact ⟨h, .refl _⟩
  | redisSet_late msg => exact h.set hshown

/-! ## The contract -/

/-- Saves of links whose expiry is read as it is written, and lookups. -/
def exactOnly : Request → Prop
  | .save _ _ expiresAt => ∀ t ∈ expiresAt, t.Exact
  | .lookup _ => True
  | .backfill .. => False

def linksKept (ttl : ℤ) : Contract ((goCache ttl).system exactOnly) where
  inv := LinksKept
  rely := RowsStay
  pre q e := match q with
    | .save _ _ expiresAt => ∀ t ∈ expiresAt, t.Exact
    | .lookup _ => True
    | .backfill code data _ => Shown e code (encodingJson.unmarshal data)
  ok := anyCall
  guar _ h c _ e := (LinksKept e ∧ RowsStay h.now e) ∧
    ∀ code data ttl, c = .goRedisSet code data ttl → Shown e code (encodingJson.unmarshal data)
  post q r h := match q, r with
    | .save code url expiresAt, .ok (.saved none) =>
      h.now.urls code = some (url, .ofOption expiresAt)
    | .lookup code, .ok (.found (some r) err) => err = none ∧ Shown h.now code r
    | _, _ => True

section

variable {ttl : ℤ}

theorem linksKept_backfill {code data : String} {lifetime : ℤ} {e : Env}
    (h : Shown e code (encodingJson.unmarshal data)) :
    (linksKept ttl).Safe (.backfill code data lifetime)
      ((goCache ttl).body (.backfill code data lifetime)) (.start e) := by
  intro h' hx hi r e' he _
  exact ⟨⟨hi.exec_set (h.mono (.of_extends hx)) he, by simp⟩, trivial⟩

/-- The write-through of a `Save`, whose row is there. -/
theorem linksKept_write {code url : String} {x : Option Time} {lifetime : ℤ}
    (hx : ∀ t ∈ x, t.Exact) {h : History Env Call Answer}
    (hrow : h.now.urls code = some (url, .ofOption x)) :
    (linksKept ttl).Safe (.save code url x)
      (.call (.redisSet code (encodingJson.marshal ⟨url, x⟩) lifetime) fun _ =>
        .ret (.saved none)) h := by
  intro h' hxt hi r e he _
  have hrow' := RowsStay.of_extends hxt _ _ hrow
  have hshows : Shows (url, .ofOption x) ⟨url, x⟩ := .inl (by rw [NullTime.toOption_ofOption])
  have hread : encodingJson.unmarshal (encodingJson.marshal ⟨url, x⟩) = ⟨url, x⟩ := by
    apply hshows.cached
    rw [NullTime.toOption_ofOption]
    exact hx
  have hset := hi.exec_set ⟨_, hrow', by rwa [hread]⟩ he
  exact ⟨⟨hset, by simp⟩, hset.2 _ _ hrow'⟩

theorem linksKept_save {code url : String} {x : Option Time} (hexact : ∀ t ∈ x, t.Exact)
    {e : Env} :
    (linksKept ttl).Safe (.save code url x) ((goCache ttl).body (.save code url x)) (.start e) := by
  intro h₁ hx₁ hi₁ r₁ e₁ he₁ _
  cases he₁ with
  | pgInsert_fail msg => exact ⟨⟨⟨hi₁, .refl _⟩, by simp⟩, trivial⟩
  | pgInsert hnew =>
      refine ⟨⟨hi₁.insert hnew hexact, by simp⟩, ?_⟩
      have hrow : (h₁.now.insert code url (.ofOption x)).urls code = some (url, .ofOption x) :=
        Function.update_self _ _ _
      cases x with
      | none => exact linksKept_write hexact hrow
      | some t =>
          intro h₂ hx₂ hi₂ r₂ e₂ he₂ _
          cases he₂ with
          | timeNow =>
              refine ⟨⟨hi₂.same rfl rfl, by simp⟩, ?_⟩
              apply linksKept_write hexact
              exact RowsStay.of_extends hx₂ _ _ hrow

/-- The end of a miss: the row that was read is what the backfill writes and the lookup gives. -/
theorem linksKept_fill {code : String} {row : String × NullTime} {lifetime : ℤ}
    {h : History Env Call Answer} (hrow : h.now.urls code = some row) :
    (linksKept ttl).Safe (.lookup code)
      (.call (.goRedisSet code
        (encodingJson.marshal ⟨row.1, some (readRow row).2.time⟩) lifetime) fun _ =>
        .ret (.found (some ⟨row.1, some (readRow row).2.time⟩) none)) h := by
  intro h' hx hi r e he _
  have hrow' := RowsStay.of_extends hx _ _ hrow
  have hshows : Shows row ⟨row.1, some (readRow row).2.time⟩ := .inr rfl
  cases he with
  | goRedisSet =>
      refine ⟨⟨⟨hi, .refl _⟩, ?_⟩, rfl, row, hrow', hshows⟩
      rintro c d l ⟨⟩
      rw [hshows.cached (hi.exact _ _ hrow')]
      exact ⟨row, hrow', hshows⟩

theorem linksKept_miss {code : String} {h : History Env Call Answer} :
    (linksKept ttl).Safe (.lookup code)
      ((goCache ttl).lookupPrimary code >>= fun r => .ret (.found r.1 r.2)) h := by
  intro h₁ hx₁ hi₁ r₁ e₁ he₁ _
  cases he₁ with
  | incCacheMiss =>
      refine ⟨⟨hi₁.same rfl rfl, by simp⟩, ?_⟩
      intro h₂ hx₂ hi₂ r₂ e₂ he₂ _
      cases he₂ with
      | pgSelect_fail msg => exact ⟨⟨hi₂.same rfl rfl, by simp⟩, trivial⟩
      | pgSelect =>
          refine ⟨⟨hi₂.same rfl rfl, by simp⟩, ?_⟩
          cases hrow : h₂.now.urls code with
          | none => trivial
          | some row =>
              -- whatever happens until then, the backfill caches the row that was read
              have hfill : ∀ {h : History Env Call Answer}, RowsStay h₂.now h.now →
                  (linksKept ttl).Safe (.lookup code)
                    (timeNow >>= fun now => .call (.goRedisSet code
                      (encodingJson.marshal ⟨row.1, some (readRow row).2.time⟩)
                        ((readRow row).2.time.sub now)) fun _ =>
                      .ret (.found (some ⟨row.1, some (readRow row).2.time⟩) none)) h := by
                intro h hstay h' hx hi r e he _
                cases he with
                | timeNow =>
                    refine ⟨⟨hi.same rfl rfl, by simp⟩, ?_⟩
                    apply linksKept_fill
                    exact RowsStay.of_extends hx _ _ (hstay _ _ hrow)
              by_cases hvalid : row.2.valid = true
              · -- the row expires: it is read whether it has
                have hread : readRow row = (row.1, ⟨timestampColumn row.2.time, true⟩) := by
                  rw [readRow, if_pos hvalid]
                rw [hread] at hfill
                rw [Option.map_some, hread]
                simp only [Prog.bind, if_true]
                intro h₃ hx₃ hi₃ r₃ e₃ he₃ _
                have hstay := RowsStay.of_extends hx₃
                cases he₃ with
                | @timeNow offset =>
                    refine ⟨⟨hi₃.same rfl rfl, by simp⟩, ?_⟩
                    by_cases hafter : (Time.mk h₃.now.now offset).after (timestampColumn row.2.time)
                    · simp only [Prog.bind, hafter, if_true]
                      trivial
                    · simp only [Prog.bind, hafter]
                      exact hfill hstay
              · have hread : readRow row = (row.1, ⟨.zero, false⟩) := by
                  rw [readRow, if_neg hvalid]
                have hstay : RowsStay h₂.now (History.now
                    (.own h₂ (.pgSelect code) (.ok (some (row.1, ⟨.zero, false⟩))) h₂.now)) :=
                  .refl _
                rw [hread] at hfill
                rw [Option.map_some, hread]
                simp only [Prog.pure_eq, Prog.bind, Bool.false_eq_true, if_false]
                dsimp only at hfill
                exact hfill hstay

theorem linksKept_lookup {code : String} {e : Env} :
    (linksKept ttl).Safe (.lookup code) ((goCache ttl).body (.lookup code)) (.start e) := by
  intro h₁ hx₁ hi₁ r₁ e₁ he₁ _
  cases he₁ with
  | redisGet_fail msg => exact ⟨⟨hi₁.same rfl rfl, by simp⟩, linksKept_miss⟩
  | redisGet =>
      refine ⟨⟨hi₁.same rfl rfl, by simp⟩, ?_⟩
      cases hen : h₁.now.live code with
      | none => exact linksKept_miss
      | some en =>
          -- a hit: the entry is read as the row can be shown, and the row stays
          have hshown := hi₁.shown code en (Env.redis_of_live hen)
          intro h₂ hx₂ hi₂ r₂ e₂ he₂ _
          cases he₂ with
          | incCacheHit =>
              have hstay := RowsStay.of_extends hx₂
              exact ⟨⟨hi₂.same rfl rfl, by simp⟩, rfl, hshown.mono hstay⟩

theorem linksKept_holds : (linksKept ttl).Holds where
  drift e e' hi hd := hi.drift hd
  call q h c r e hi he hg := by
    refine ⟨hg.1.1, hg.1.2, fun q' hq' => ?_⟩
    cases c <;> simp only [CachedStore.system, spawned, List.mem_singleton, List.not_mem_nil] at hq'
    rw [hq']
    exact hg.2 _ _ _ rfl
  arrive q e hq _ := by
    cases q with
    | save code url expiresAt => exact hq
    | lookup code => trivial
    | backfill code data lifetime => exact hq.elim
  body q e _ hq := by
    cases q with
    | save code url expiresAt => exact linksKept_save hq
    | lookup code => exact linksKept_lookup
    | backfill code data lifetime => exact linksKept_backfill hq

end

/-! ## Every interleaving -/

/-- **A lookup gives its own link**: what it finds is the row of its code, with the expiry as it
was saved or as the column shows it; and a row is what some save was asked to store. -/
theorem lookup_own_link {ttl : ℤ} {e₀ : Env} (h₀ : LinksKept e₀)
    {w : World Env Request Call Answer Empty Reply}
    (hw : ((goCache ttl).system exactOnly).Reach anyCall e₀ w) :
    (∀ t ∈ w.threads, ∀ code r err, t.req = .lookup code → t.prog = .ret (.found (some r) err) →
      err = none ∧ Shown w.env code r) ∧
    ∀ s ∈ w.threads, ∀ code url x, s.req = .save code url x → s.prog = .ret (.saved none) →
      w.env.urls code = some (url, .ofOption x) := by
  have hgood := Contract.sound linksKept_holds h₀ hw
  constructor
  · intro t ht code r err hreq hprog
    have hpost := Contract.sound_post linksKept_holds h₀ hw ht hprog
    have hstay := RowsStay.of_path (hgood.since ht)
    rw [hreq] at hpost
    exact ⟨hpost.1, hpost.2.mono hstay⟩
  · intro s hs code url x hreq hprog
    have hpost := Contract.sound_post linksKept_holds h₀ hw hs hprog
    have hstay := RowsStay.of_path (hgood.since hs)
    rw [hreq] at hpost
    exact hstay _ _ hpost

/-! ### An instance -/

theorem linksKept_empty : LinksKept .empty where
  exact _ _ h := by cases h
  shown _ _ h := by cases h

/-- The beginning of 2030 in Paris. -/
def parisNewYear : Time := ⟨1893452400000000000, 3600⟩

theorem parisNewYear_exact : parisNewYear.Exact := by
  refine ⟨Time.writable_iff.mpr ?_, by decide⟩
  decide +kernel

/-- A link until then is saved, the cache answers a lookup, loses its entry, and Postgres answers
the next one. -/
def parisRun : World Env Request Call Answer Empty Reply :=
  ((goCache (600 * 1000000000)).system exactOnly).playAll answer ⟨.empty, []⟩
    [.arrive (.save "aZ3kQ9x" "https://example.com" (some parisNewYear)), .call 0, .call 0,
      .call 0, .arrive (.lookup "aZ3kQ9x"), .call 1, .call 1,
      .drift fun e => { e with redis := fun _ => none },
      .arrive (.lookup "aZ3kQ9x"), .call 2, .call 2, .call 2, .call 2, .call 2, .call 2]

theorem reach_parisRun :
    ((goCache (600 * 1000000000)).system exactOnly).Reach anyCall .empty parisRun := by
  refine System.reach_play exec_answer (fun m hm => ?_) (System.meets_anyCall _ _)
  simp only [List.mem_cons, List.not_mem_nil, or_false] at hm
  rcases hm with rfl | rfl | rfl | rfl | rfl | rfl | rfl | rfl | rfl | rfl | rfl | rfl | rfl |
    rfl | rfl
  · intro t ht
    rw [Option.mem_some] at ht
    rw [← ht]
    exact parisNewYear_exact
  all_goals try trivial
  · exact fun e => ⟨le_rfl, rfl, fun _ => .inr rfl⟩

theorem ended_parisRun :
    parisRun.ended 1 = some (.lookup "aZ3kQ9x",
      .ok (.found (some ⟨"https://example.com", some parisNewYear⟩) none)) ∧
    parisRun.ended 2 = some (.lookup "aZ3kQ9x",
      .ok (.found (some ⟨"https://example.com", some (timestampColumn parisNewYear)⟩) none)) := by
  decide +kernel

/-- Both answers are the link that was saved. -/
theorem lookup_own_link_example :
    Shown parisRun.env "aZ3kQ9x" ⟨"https://example.com", some parisNewYear⟩ ∧
      Shown parisRun.env "aZ3kQ9x"
        ⟨"https://example.com", some (timestampColumn parisNewYear)⟩ := by
  obtain ⟨t, ht, htreq, htprog⟩ := World.thread_of_ended ended_parisRun.1
  obtain ⟨u, hu, hureq, huprog⟩ := World.thread_of_ended ended_parisRun.2
  have hlinks := (lookup_own_link linksKept_empty reach_parisRun).1
  exact ⟨(hlinks t (List.mem_of_getElem? ht) _ _ _ htreq htprog).2,
    (hlinks u (List.mem_of_getElem? hu) _ _ _ hureq huprog).2⟩

end EngineeringLab.Shortener
