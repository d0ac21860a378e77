/-
`handler.Store`, the interface, with the three stores behind it.

What a handler sees of a store is one `Lookup` or `Save` after another, so a store that
is asked alone and whose database answers is a function of what it holds and of the
clock. `Store.slot` says what it holds under a code, without asking it; `Lookup` then
gives an entry, `ErrExpired` or nothing (`Store.lookup_spec`).

The three stores are `MemoryStore`, `PgStore` and `CachedStore` over `PgStore`. The first
compares the clock with the expiry that was saved; the second with what its column gives
back; the third answers from Redis without a clock as long as the entry is there. The
differences between them are the subject of the modules about expiry. Here only their common
shape matters: whether a code is free, taken or expired.

A method that runs alone, while no call fails, is a function (`Method.alone`), and that run
is one of those that the relation of all possibilities allows (`Method.ends_alone`).
-/
import EngineeringLab.Shortener.Bindings

set_option autoImplicit false

open Concurrency

namespace EngineeringLab.Shortener

/-! ## One method at a time -/

/-- What a method gives when it runs alone in `e` and nothing fails, and the state after. -/
def Method.alone {α : Type} (p : Method α) (e : Env) : α × Env :=
  match p.run (fun c e => answer e c) e with
  | (.ok a, e') => (a, e')
  | (.error x, _) => x.elim

theorem Method.ends_alone {α : Type} (p : Method α) (e : Env) :
    p.Ends Exec e (.ok (p.alone e).1) (p.alone e).2 := by
  have hrun := Prog.Ends.of_run (fun c e => exec_answer e c) p e
  unfold Method.alone
  rcases hend : p.run (fun c e => answer e c) e with ⟨x | a, e'⟩
  · exact x.elim
  · rwa [hend] at hrun

/-- What `CachedStore.Lookup` gives when it runs alone. -/
def CachedStore.lookupAt (cs : CachedStore) (e : Env) (code : String) :
    Option LookupResult × Option StoreError :=
  ((cs.lookup code).alone e).1

section

variable {e : Env} {code : String}

/-- A hit is the entry, as it was written. -/
theorem CachedStore.lookupAt_hit (cs : CachedStore) {en : Entry} (h : e.live code = some en) :
    cs.lookupAt e code = (some (cs.json.unmarshal en.data), none) := by
  simp [CachedStore.lookupAt, Method.alone, CachedStore.lookup, redisGet, incCacheHit, answer, h]

theorem PgStore.lookupAt_expiring {url : String} {t : Time}
    (h : e.urls code = some (url, ⟨t, true⟩)) :
    PgStore.lookupAt e code = if (timestampColumn t).instant < e.now then (none, some .errExpired)
      else (some ⟨url, some (timestampColumn t)⟩, none) := by
  by_cases hafter : (timestampColumn t).instant < e.now
  · simp [PgStore.lookupAt, PgStore.lookup, pgSelect, timeNow, answer, h, readRow, Time.after,
      hafter]
  · simp [PgStore.lookupAt, PgStore.lookup, pgSelect, timeNow, answer, h, readRow, Time.after,
      hafter]

/-- A miss is answered as the primary answers. -/
theorem CachedStore.lookupAt_miss (cs : CachedStore) (h : e.live code = none) :
    cs.lookupAt e code = PgStore.lookupAt e code := by
  rcases hrow : e.urls code with _ | ⟨url, t, valid⟩
  · rw [PgStore.lookupAt_absent hrow]
    simp [CachedStore.lookupAt, Method.alone, CachedStore.lookup, CachedStore.lookupPrimary,
      redisGet, incCacheMiss, PgStore.lookup, pgSelect, answer, h, hrow]
  · cases valid with
    | false =>
        rw [PgStore.lookupAt_permanent hrow rfl]
        simp [CachedStore.lookupAt, Method.alone, CachedStore.lookup, CachedStore.lookupPrimary,
          redisGet, incCacheMiss, PgStore.lookup, pgSelect, timeNow, goRedisSet, answer, h, hrow,
          readRow]
    | true =>
        rw [PgStore.lookupAt_expiring hrow]
        by_cases hafter : (timestampColumn t).instant < e.now
        · simp [CachedStore.lookupAt, Method.alone, CachedStore.lookup, CachedStore.lookupPrimary,
            redisGet, incCacheMiss, PgStore.lookup, pgSelect, timeNow, answer, h, hrow, readRow,
            Time.after, hafter]
        · simp [CachedStore.lookupAt, Method.alone, CachedStore.lookup, CachedStore.lookupPrimary,
            redisGet, incCacheMiss, PgStore.lookup, pgSelect, timeNow, goRedisSet, answer, h, hrow,
            readRow, Time.after, hafter]

end

/-! ## The interface -/

/-- A value of `handler.Store`: one of its implementations on what it stores. -/
inductive Store where
  | memory (s : MemoryStore)
  | postgres (e : Env)
  | cached (cs : CachedStore) (e : Env)

namespace Store

/-- `Lookup` at the clock reading `now`. -/
def lookup (now : Time) (code : String) : Store → Option LookupResult × Option StoreError
  | memory s => s.lookup now code
  | postgres e => PgStore.lookupAt { e with now := now.instant } code
  | cached cs e => cs.lookupAt { e with now := now.instant } code

/-- `Save` at the clock reading `now`. -/
def save (now : Time) (code url : String) (expiresAt : Option Time) :
    Store → Option StoreError × Store
  | memory s => ((s.save code url expiresAt).2, memory (s.save code url expiresAt).1)
  | postgres e =>
    let r := Method.alone (PgStore.save code url expiresAt) { e with now := now.instant }
    (r.1, postgres r.2)
  | cached cs e =>
    let r := Method.alone (cs.save code url expiresAt) { e with now := now.instant }
    (r.1, cached cs r.2)

/-! ## What is held under a code -/

/-- What a store holds under a code. -/
inductive Slot where
  | free
  | live
  | expired
  deriving DecidableEq, Repr

/-- A row of Postgres at `now`. -/
def rowSlot (now : Time) : Option (String × NullTime) → Slot
  | none => .free
  | some (_, t) =>
    if t.valid = true ∧ (timestampColumn t.time).instant < now.instant then .expired else .live

/-- An entry of the cache counts as live: nothing else is asked then. -/
def slot (now : Time) (code : String) : Store → Slot
  | memory s =>
    match s code with
    | none => .free
    | some val =>
      if val.expiresAt.any (fun x => x.valid && now.after x.time) then .expired else .live
  | postgres e => rowSlot now (e.urls code)
  | cached _ e =>
    if (Env.live { e with now := now.instant } code).isSome then .live
    else rowSlot now (e.urls code)

/-- What a lookup answers for each kind of slot. -/
def Answers (r : Except StoreError (Option LookupResult)) : Slot → Prop
  | .free => r = .ok none
  | .live => ∃ val, r = .ok (some val)
  | .expired => r = .error .errExpired

theorem answers_row {e : Env} {now : Time} (hnow : e.now = now.instant) (code : String) :
    Answers (storeAnswer (PgStore.lookupAt e code)) (rowSlot now (e.urls code)) := by
  rcases hrow : e.urls code with _ | ⟨url, t, valid⟩
  · rw [PgStore.lookupAt_absent hrow]
    rfl
  · cases valid with
    | false =>
        rw [PgStore.lookupAt_permanent hrow rfl]
        exact ⟨_, rfl⟩
    | true =>
        rw [PgStore.lookupAt_expiring hrow, rowSlot, hnow]
        by_cases hafter : (timestampColumn t).instant < now.instant
        · rw [if_pos hafter, if_pos ⟨rfl, hafter⟩]
          rfl
        · rw [if_neg hafter, if_neg fun h => hafter h.2]
          exact ⟨_, rfl⟩

/-- **A lookup answers what is held.** -/
theorem lookup_spec (st : Store) (now : Time) (code : String) :
    Answers (storeAnswer (st.lookup now code)) (st.slot now code) := by
  cases st with
  | memory s =>
      simp only [lookup, slot, MemoryStore.lookup]
      cases s code with
      | none => rfl
      | some val =>
          dsimp only
          split
          · rfl
          · exact ⟨_, rfl⟩
  | postgres e => exact answers_row rfl code
  | cached cs e =>
      simp only [lookup, slot]
      cases hlive : Env.live { e with now := now.instant } code with
      | some en =>
          rw [cs.lookupAt_hit hlive]
          exact ⟨_, rfl⟩
      | none =>
          rw [cs.lookupAt_miss hlive]
          exact answers_row rfl code

/-- A lookup finds a link exactly where one is live. -/
theorem found_iff (st : Store) (now : Time) (code : String) :
    (∃ val, st.lookup now code = (some val, none)) ↔ st.slot now code = .live := by
  have hanswer := st.lookup_spec now code
  constructor
  · rintro ⟨val, hval⟩
    rw [hval] at hanswer
    cases hslot : st.slot now code with
    | live => rfl
    | free => rw [hslot] at hanswer; cases hanswer
    | expired => rw [hslot] at hanswer; cases hanswer
  · intro hlive
    rw [hlive] at hanswer
    obtain ⟨val, hval⟩ := hanswer
    rcases hlookup : st.lookup now code with ⟨found, _ | err⟩
    · rw [hlookup] at hval
      cases hval
      exact ⟨val, rfl⟩
    · rw [hlookup] at hval
      cases hval

end Store

end EngineeringLab.Shortener
