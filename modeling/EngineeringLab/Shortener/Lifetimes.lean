/-
How long Redis keeps a link that never expires.

Both write paths of `CachedStore` are to give its entry the default lifetime. The
write-through in `Save` does. The backfill in `Lookup` does it for a nil `ExpiresAt`, but
`PgStore.Lookup` never returns one: for a row without expiry it returns a pointer to the
zero time, `time.Until` of which is not positive, and the entry has no time limit
(`entry_without_deadline`). So lifetimes are as they should be in the runs in which no
lookup of the link is answered by Postgres (`permanent_entries_expire`).

A lifetime is a number that `SET` is given, and what it means is Redis' affair: a positive
one is a time limit, `KEEPTTL` leaves the old limit, and any other means that there is none.
So a lifetime that is computed wrongly does not shorten the entry's life, it makes it
endless. The entry then has to be evicted for lack of memory, or stays.

The two statements of the theorem are about every `SET` that a run makes and about every
entry that Redis has at its end. They follow from the contract of `CacheEntries`, which is
about one code at a time.
-/
import EngineeringLab.Shortener.CacheEntries

set_option autoImplicit false

open Concurrency

namespace EngineeringLab.Shortener

/-- **Every entry of a link without expiry has a time limit**, and every `SET` for it a
positive lifetime of the default one at most, in every run in which no `SELECT` of the code
comes back without an expiry. -/
theorem permanent_entries_expire {cs : CachedStore} (hpos : 0 < cs.ttl) {code : String} {e₀ : Env}
    (h₀ : Mirrors (some cs) code e₀) {w : World Env Request Call Answer Empty Reply}
    (hw : (storeSystem (some cs)).Reach (readsExpiry code) e₀ w) :
    (∀ th ∈ w.threads, th.past.EachCall fun h c _ _ => ∀ data ttl, c = .redisSet code data ttl →
      ∃ url t, h.now.urls code = some (url, t) ∧ (t.valid = false → 0 < ttl ∧ ttl ≤ cs.ttl)) ∧
    ∀ en, w.env.redis code = some en → ∃ url t, w.env.urls code = some (url, t) ∧
      (t.valid = false → ∃ d, en.deadline = some d ∧ d ≤ w.env.now + cs.ttl) := by
  have hK : (mirroring (some cs) code).Holds := mirroring_holds
  constructor
  · intro th hth
    apply (Contract.sound_calls hK h₀ hw th hth).mono
    rintro h c r e ⟨-, hset, -⟩ data ttl rfl
    obtain ⟨url, t, hrow, -, httl⟩ := hset data ttl rfl cs rfl
    exact ⟨url, t, hrow, fun hv => httl hv hpos⟩
  · intro en hen
    obtain ⟨url, t, hrow, -, hdeadline⟩ := (Contract.sound hK h₀ hw).1 cs rfl en hen
    exact ⟨url, t, hrow, fun hv => hdeadline hv hpos⟩

/-! ### Instances: a lookup that the cache answers, and one that it does not -/

theorem mirrors_newYear (front : Option CachedStore) (code : String) :
    Mirrors front code newYear := by
  intro cs _ en hen
  cases hen

/-- A permanent link is saved. -/
def savedPermanent : World Env Request Call Answer Empty Reply :=
  (storeSystem (some plainCache)).playAll answer ⟨newYear, []⟩
    [.arrive (.save "aZ3kQ9x" "https://example.com" none), .call 0, .call 0]

/-- It is looked up at once, and the cache answers. -/
def hitPermanent : World Env Request Call Answer Empty Reply :=
  (storeSystem (some plainCache)).playAll answer savedPermanent
    [.arrive (.lookup "aZ3kQ9x"), .call 1, .call 1]

theorem reach_savedPermanent :
    (storeSystem (some plainCache)).Reach (readsExpiry "aZ3kQ9x") newYear savedPermanent := by
  refine System.reach_play exec_answer (fun m hm => ?_) ?_
  · simp only [List.mem_cons, List.not_mem_nil, or_false] at hm
    rcases hm with rfl | rfl | rfl <;> trivial
  · refine ⟨?_, ?_, ?_, trivial⟩ <;> rintro i ⟨⟩ t ⟨⟩ c k ⟨⟩ <;> trivial

theorem steps_hitPermanent : Relation.ReflTransGen
    ((storeSystem (some plainCache)).Step (readsExpiry "aZ3kQ9x")) savedPermanent hitPermanent := by
  refine System.steps_play exec_answer (fun m hm => ?_) ?_
  · simp only [List.mem_cons, List.not_mem_nil, or_false] at hm
    rcases hm with rfl | rfl | rfl <;> trivial
  · refine ⟨?_, ?_, ?_, trivial⟩ <;> rintro i ⟨⟩ t ⟨⟩ c k ⟨⟩ <;> trivial

/-- The entry that the save wrote, once a lookup has found it, has a deadline within the
default lifetime. -/
theorem permanent_entries_expire_example :
    ∃ en d, hitPermanent.env.redis "aZ3kQ9x" = some en ∧ en.deadline = some d ∧
      d ≤ hitPermanent.env.now + plainCache.ttl := by
  have hen : hitPermanent.env.redis "aZ3kQ9x" =
      some ⟨plainCache.json.marshal ⟨"https://example.com", none⟩,
        some (newYear.now + plainCache.ttl)⟩ := by
    decide +kernel
  have hrow : hitPermanent.env.urls "aZ3kQ9x" = some ("https://example.com", .ofOption none) := by
    decide +kernel
  obtain ⟨url, t, hrow', hd⟩ := (permanent_entries_expire (by decide)
    (mirrors_newYear _ "aZ3kQ9x") (reach_savedPermanent.trans steps_hitPermanent)).2 _ hen
  rw [hrow] at hrow'
  cases hrow'
  obtain ⟨d, hdeadline, hle⟩ := hd rfl
  exact ⟨_, d, hen, hdeadline, hle⟩

/-- The permanent link is saved, its entry runs out, and a lookup misses. The last move is
the backfill's. -/
def savedThenMissed : World Env Request Call Answer Empty Reply :=
  (storeSystem (some plainCache)).playAll answer ⟨newYear, []⟩
    [.arrive (.save "aZ3kQ9x" "https://example.com" none), .call 0, .call 0,
      .drift fun e => { e with now := e.now + 601 * 1000000000 },
      .arrive (.lookup "aZ3kQ9x"), .call 1, .call 1, .call 1, .call 1, .call 1, .call 2]

theorem reach_savedThenMissed :
    (storeSystem (some plainCache)).Reach anyCall newYear savedThenMissed := by
  refine System.reach_play exec_answer (fun m hm => ?_) (System.meets_anyCall _ _)
  simp only [List.mem_cons, List.not_mem_nil, or_false] at hm
  rcases hm with rfl | rfl | rfl | rfl | rfl | rfl | rfl | rfl | rfl | rfl | rfl <;> try trivial
  exact fun e => ⟨by simp, rfl, fun _ => .inl rfl⟩

/-- **An entry without a time limit**: after a first miss Redis holds the permanent link for
ever, and as one that expired in year 1. -/
theorem entry_without_deadline : ∃ w, (storeSystem (some plainCache)).Reach anyCall newYear w ∧
    0 < plainCache.ttl ∧
    w.env.urls "aZ3kQ9x" = some ("https://example.com", .ofOption none) ∧
    w.env.redis "aZ3kQ9x" =
      some ⟨plainCache.json.marshal ⟨"https://example.com", some .zero⟩, none⟩ := by
  refine ⟨savedThenMissed, reach_savedThenMissed, by decide, ?_, ?_⟩
  · decide +kernel
  · decide +kernel

end EngineeringLab.Shortener
