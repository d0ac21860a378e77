/-
What is saved is what is looked up, up to the links without expiry that Postgres answers.

The optional expiry of a link is a pointer in the handler, an `ExpiryTime` in
`MemoryStore`, a `sql.NullTime` in Postgres and a JSON value in Redis. Each way there and
back keeps it, with one exception: `PgStore.Lookup` takes the address of the `NullTime`'s
time whether or not it is valid, so a link saved without expiry comes back with the zero
time (`expiry_made_up`). `MemoryStore` and a cache hit return it as it was saved, hence the
stores are interchangeable in the runs in which no lookup of such a link is answered by
Postgres (`looked_up_as_saved`).

A client that chooses a store by configuration expects that of any of them. The statement is
for every run, with anything that may go on beside: other codes, failures of Redis, entries
that are lost. It leaves out a lookup whose own `SELECT` fails, which answers with that
error, and it asks of a link with an expiry that the column can represent it (`Time.Clean`)
and that the lookup ends before the expiry.
-/
import EngineeringLab.Shortener.Bindings
import EngineeringLab.Shortener.Lifetimes

set_option autoImplicit false

open Concurrency

namespace EngineeringLab.Shortener

/-! ## `MemoryStore` -/

/-- A history of saves, the first one first. Each takes the lock for itself, and a lookup
in between changes nothing. -/
def MemoryStore.saveAll (s : MemoryStore) (links : List SavedLink) : MemoryStore :=
  links.foldl (fun s l => (s.save l.code l.url l.expiresAt).1) s

theorem MemoryStore.saveAll_cons (s : MemoryStore) (l : SavedLink) (links : List SavedLink) :
    s.saveAll (l :: links) = (s.save l.code l.url l.expiresAt).1.saveAll links := rfl

theorem MemoryStore.save_self (s : MemoryStore) (code url : String) (x : Option Time) :
    (s.save code url x).1 code = some ⟨url, x.map (⟨·, true⟩)⟩ := Function.update_self _ _ _

theorem MemoryStore.saveAll_of_notMem {links : List SavedLink} (s : MemoryStore) {code : String}
    (h : code ∉ links.map (·.code)) : s.saveAll links code = s code := by
  induction links generalizing s with
  | nil => rfl
  | cons l links ih =>
      rw [List.map_cons, List.mem_cons, not_or] at h
      rw [saveAll_cons, ih _ h.2]
      exact Function.update_of_ne h.1 _ _

/-- No later save touches the code. -/
theorem MemoryStore.saveAll_of_mem {links : List SavedLink} (s : MemoryStore) {l : SavedLink}
    (hnodup : (links.map (·.code)).Nodup) (hl : l ∈ links) :
    s.saveAll links l.code = some ⟨l.url, l.expiresAt.map (⟨·, true⟩)⟩ := by
  induction links generalizing s with
  | nil => cases hl
  | cons l' links ih =>
      rw [List.map_cons, List.nodup_cons] at hnodup
      rw [saveAll_cons]
      -- either this is the save, and the rest are of other codes, or it is one of the rest
      rcases List.mem_cons.mp hl with rfl | hl
      · rw [saveAll_of_notMem _ hnodup.1]
        exact save_self _ _ _ _
      · exact ih _ hnodup.2 hl

/-- An entry that has not expired is returned as it was saved. -/
theorem MemoryStore.lookup_fresh {s : MemoryStore} {now : Time} {code url : String}
    {x : Option Time} (hval : s code = some ⟨url, x.map (⟨·, true⟩)⟩)
    (hfresh : ∀ t, x = some t → now.instant ≤ t.instant) :
    s.lookup now code = (some ⟨url, x⟩, none) := by
  rw [MemoryStore.lookup, hval]
  cases x with
  | none => rfl
  | some t =>
      have hnot : ¬ t.instant < now.instant := not_lt.mpr (hfresh t rfl)
      simp [Time.after, hnot]

/-! ## The three stores -/

/-- **What is saved is what is looked up**: by `PgStore`, and by `CachedStore` over it, in
every run in which no `SELECT` of the code comes back without an expiry, unless the lookup's
own `SELECT` fails; by `MemoryStore` after every history of saves with distinct codes. -/
theorem looked_up_as_saved {front : Option CachedStore} {code url : String} {x : Option Time}
    (hclean : ∀ t, x = some t → t.Clean) (hjson : ∀ cs, front = some cs → cs.RoundTrips url x)
    {e₀ : Env} (h₀ : Mirrors front code e₀) {w w' : World Env Request Call Answer Empty Reply}
    (hw : (storeSystem front).Reach (readsExpiry code) e₀ w)
    (hw' : Relation.ReflTransGen ((storeSystem front).Step (readsExpiry code)) w w') :
    (∀ s ∈ w.threads, s.req = .save code url x → s.prog = .ret (.saved none) →
      ∀ i t, w.threads.length ≤ i → w'.threads[i]? = some t →
        ∀ res err, t.req = .lookup code → t.prog = .ret (.found res err) →
          (∀ y, x = some y → t.past.now.now ≤ y.instant) →
            SelectFailed code err t.past ∨ (res = some ⟨url, x⟩ ∧ err = none)) ∧
    ∀ (m : MemoryStore) (links : List SavedLink), (links.map (·.code)).Nodup →
      ⟨code, url, x⟩ ∈ links → ∀ now : Time, (∀ y, x = some y → now.instant ≤ y.instant) →
        (m.saveAll links).lookup now code = (some ⟨url, x⟩, none) := by
  constructor
  · intro s hs hreq hprog i t hi ht res err hreqt hprogt hfresh
    have hK : (mirroring front code).Holds := mirroring_holds
    have hgood := Contract.sound hK h₀ hw
    -- the row is there when the save returns, and stays for every later arrival
    have hrow : s.past.now.urls code = some (url, .ofOption x) := by
      have hp := Contract.sound_post hK h₀ hw hs hprog
      simpa [mirroring, hreq] using hp
    have hrow_t := (Onward.of_path (hgood.since_later hK hw' hs hi ht)).rows code _ hrow
    have hpost : Returned front code res err t.past := by
      have hp := Contract.sound_post hK h₀ (hw.trans hw') (List.mem_of_getElem? ht) hprogt
      simpa [mirroring, hreqt] using hp
    have hlive : (NullTime.ofOption x).valid = true →
        (NullTime.ofOption x).time.Clean ∧ t.past.now.now ≤ (NullTime.ofOption x).time.instant := by
      cases x with
      | none => exact fun h => by cases h
      | some y => exact fun _ => ⟨hclean y rfl, hfresh y rfl⟩
    have hfound := hpost url (.ofOption x) hrow_t hlive
    rw [NullTime.toOption_ofOption] at hfound
    exact hfound hjson
  · intro m links hnodup hmem now hfresh
    exact MemoryStore.lookup_fresh (MemoryStore.saveAll_of_mem m hnodup hmem) hfresh

/-! ### Instances -/

theorem roundTrips_plainCache (url : String) : plainCache.RoundTrips url none := by
  simp [CachedStore.RoundTrips, plainCache, plainJson]

theorem ended_savedPermanent : savedPermanent.ended 0 =
    some (.save "aZ3kQ9x" "https://example.com" none, .ok (.saved none)) := by
  decide +kernel

theorem ended_hitPermanent : hitPermanent.ended 1 =
    some (.lookup "aZ3kQ9x", .ok (.found (some ⟨"https://example.com", none⟩) none)) := by
  decide +kernel

/-- A permanent link, saved and then answered by the cache, comes back as it was saved; and
so it does from memory, after another link was saved there. -/
theorem looked_up_as_saved_example :
    (∃ t res err, hitPermanent.threads[1]? = some t ∧ t.prog = .ret (.found res err) ∧
      res = some ⟨"https://example.com", none⟩ ∧ err = none) ∧
    (MemoryStore.saveAll (fun _ => none) [⟨"aZ3kQ9x", "https://example.com", none⟩,
      ⟨"bY4lR0w", "https://example.org", none⟩]).lookup .zero "aZ3kQ9x" =
        (some ⟨"https://example.com", none⟩, none) := by
  obtain ⟨s, hs, hsreq, hsprog⟩ := World.thread_of_ended ended_savedPermanent
  obtain ⟨t, ht, htreq, htprog⟩ := World.thread_of_ended ended_hitPermanent
  have hlen : savedPermanent.threads.length ≤ 1 := by decide +kernel
  have hclean : ∀ t : Time, (none : Option Time) = some t → t.Clean := by
    intro t ht
    cases ht
  have hjson : ∀ cs, some plainCache = some cs → cs.RoundTrips "https://example.com" none := by
    intro cs hcs
    rw [← Option.some.inj hcs]
    exact roundTrips_plainCache _
  have hempty : Mirrors (some plainCache) "aZ3kQ9x" newYear := mirrors_newYear _ _
  have h := looked_up_as_saved hclean hjson hempty reach_savedPermanent steps_hitPermanent
  refine ⟨⟨t, _, _, ht, htprog, ?_⟩, ?_⟩
  · exact (h.1 s (List.mem_of_getElem? hs) hsreq hsprog 1 t hlen ht _ _ htreq htprog
      (fun y hy => by cases hy)).resolve_left not_selectFailed_none
  · exact h.2 _ _ (by decide) (by simp) _ (fun y hy => by cases hy)

/-- A permanent link is saved in Postgres and looked up there. -/
def savedThenSelected : World Env Request Call Answer Empty Reply :=
  (storeSystem none).playAll answer ⟨newYear, []⟩
    [.arrive (.save "aZ3kQ9x" "https://example.com" none), .call 0,
      .arrive (.lookup "aZ3kQ9x"), .call 1]

/-- **An expiry out of nothing**: Postgres alone, and Postgres behind the cache after a
miss, answer a lookup of a permanent link with the zero time as its expiry. -/
theorem expiry_made_up :
    (∃ w, (storeSystem none).Reach anyCall newYear w ∧
      w.ended 0 = some (.save "aZ3kQ9x" "https://example.com" none, .ok (.saved none)) ∧
      w.ended 1 = some (.lookup "aZ3kQ9x",
        .ok (.found (some ⟨"https://example.com", some .zero⟩) none))) ∧
    ∃ w, (storeSystem (some plainCache)).Reach anyCall newYear w ∧
      w.ended 0 = some (.save "aZ3kQ9x" "https://example.com" none, .ok (.saved none)) ∧
      w.ended 1 = some (.lookup "aZ3kQ9x",
        .ok (.found (some ⟨"https://example.com", some .zero⟩) none)) := by
  constructor
  · refine ⟨savedThenSelected, ?_, by decide +kernel, by decide +kernel⟩
    refine System.reach_play exec_answer (fun m hm => ?_) (System.meets_anyCall _ _)
    simp only [List.mem_cons, List.not_mem_nil, or_false] at hm
    rcases hm with rfl | rfl | rfl | rfl <;> trivial
  · exact ⟨savedThenMissed, reach_savedThenMissed, by decide +kernel, by decide +kernel⟩

end EngineeringLab.Shortener
