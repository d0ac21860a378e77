/-
The URL shortener's stores: `types/types.go`, `store/errors.go`,
`store/memory.go`, `store/postgres.go` and `store/cached.go`.

Time is in nanoseconds since the Unix epoch. A Go `time.Time` also carries the
UTC offset it prints with, because the zone-less `expires_at` column keeps the
wall clock and drops the offset; a `time.Duration` saturates at 64 bits.

`PgStore` and `CachedStore` are programs over the atomic calls they make (one SQL
statement, one Redis command, one clock reading, one counter increment), so that
the same definitions serve a call on its own and calls that interleave. What a
call may answer and do is `Exec`; what Postgres, Redis and the clock do by
themselves is `Drift`.

Failures are part of `Exec`: a statement may come back with a database error and have no
effect, a Redis command may fail before it reached Redis or after, and a goroutine that
writes to Redis is a request of its own that nobody waits for. `Drift` lets time pass and
entries go. Nothing else happens to the stores, and in particular rows are never deleted or
changed: the repository has no statement that would.
-/
import EngineeringLab.Concurrency.Interleave
import Mathlib.Data.Int.Order.Basic
import Mathlib.Tactic.Linarith

set_option autoImplicit false

open Concurrency

namespace EngineeringLab.Shortener

/-! ## Time -/

/-- `time.Time`: the instant, and the offset east of UTC in seconds. The two are kept apart,
as a column without a zone sees only their sum. -/
structure Time where
  instant : ℤ
  offset : ℤ
  deriving DecidableEq, Repr

/-- `time.Time{}`: 1 January of year 1, UTC. -/
def Time.zero : Time := ⟨-62135596800 * 1000000000, 0⟩

/-- `t.After(u)`. -/
def Time.after (t u : Time) : Bool := decide (u.instant < t.instant)

def minDuration : ℤ := -2 ^ 63
def maxDuration : ℤ := 2 ^ 63 - 1

/-- `t.Sub(u)`, which saturates at the two ends of a duration. `time.Until(t)` is
`t.Sub(time.Now())`, and so the time to live of an entry saturates too. -/
def Time.sub (t u : Time) : ℤ := max minDuration (min maxDuration (t.instant - u.instant))

/-- `sql.NullTime`. -/
structure NullTime where
  time : Time
  valid : Bool
  deriving DecidableEq, Repr

/-- The value both Go programs build from an optional expiry. -/
def NullTime.ofOption : Option Time → NullTime
  | some t => ⟨t, true⟩
  | none => ⟨.zero, false⟩

/-- What a `TIMESTAMP` column gives back for a written `time.Time`: the wall-clock
fields in whole microseconds, read as UTC. -/
def timestampColumn (t : Time) : Time :=
  ⟨(t.instant + t.offset * 1000000000) / 1000 * 1000, 0⟩

theorem timestampColumn_le {t : Time} (h : t.offset = 0) :
    (timestampColumn t).instant ≤ t.instant := by
  simp only [timestampColumn, h]
  omega

/-! ## Values and errors -/

/-- `types.LookupResult`. -/
structure LookupResult where
  url : String
  expiresAt : Option Time
  deriving DecidableEq, Repr

/-- The errors a store returns: `store.ErrExpired`, which the handlers know, or whatever the
driver says, which they pass on. -/
inductive StoreError where
  | errExpired
  | database (msg : String)
  deriving DecidableEq, Repr

/-! ## `MemoryStore` -/

/-- `store.ExpiryTime`. -/
structure ExpiryTime where
  time : Time
  valid : Bool
  deriving DecidableEq, Repr

/-- `store.urlData`. -/
structure UrlData where
  url : String
  expiresAt : Option ExpiryTime
  deriving DecidableEq, Repr

/-- `MemoryStore.data`. Each method holds the lock for its whole body, so a state of the
store is a state of the map. -/
abbrev MemoryStore := String → Option UrlData

/-- `MemoryStore.Save` overwrites whatever the code held, and never fails. -/
def MemoryStore.save (s : MemoryStore) (code url : String) (expiresAt : Option Time) :
    MemoryStore × Option StoreError :=
  (Function.update s code (some ⟨url, expiresAt.map (⟨·, true⟩)⟩), none)

/-- `MemoryStore.Lookup`, with `now` the reading of `time.Now()`. A link that has expired is
answered with an error, and stays in the map. -/
def MemoryStore.lookup (s : MemoryStore) (now : Time) (code : String) :
    Option LookupResult × Option StoreError :=
  match s code with
  | none => (none, none)
  | some val =>
    if val.expiresAt.any (fun x => x.valid && now.after x.time) then (none, some .errExpired)
    else (some ⟨val.url, val.expiresAt.map (·.time)⟩, none)

/-! ## The calls of the database-backed stores -/

/-- One atomic call: an SQL statement, a Redis command, a clock reading, a
counter, or the start of a goroutine. -/
inductive Call : Type where
  | pgInsert (code url : String) (expiresAt : NullTime)
  | pgSelect (code : String)
  | redisSet (code data : String) (ttl : ℤ)
  | redisGet (code : String)
  | goRedisSet (code data : String) (ttl : ℤ)
  | timeNow
  | incCacheHit
  | incCacheMiss

/-- What each call answers. `pgx.ErrNoRows` and `redis.Nil` are the `none` of a successful
answer, since the code asks for these errors by name and takes them for an absent row. -/
abbrev Answer : Call → Type
  | .pgInsert .. => Option StoreError
  | .pgSelect _ => Except StoreError (Option (String × NullTime))
  | .redisSet .. => Option String
  | .redisGet _ => Except String (Option String)
  | .goRedisSet .. => Unit
  | .timeNow => Time
  | .incCacheHit => Unit
  | .incCacheMiss => Unit

/-- A store method, call by call. Go has no exceptions, so nothing is thrown. -/
abbrev Method (α : Type) : Type := Prog Call Answer Empty α

def pgInsert (code url : String) (expiresAt : NullTime) : Method (Option StoreError) :=
  .call (.pgInsert code url expiresAt) .ret
def pgSelect (code : String) : Method (Except StoreError (Option (String × NullTime))) :=
  .call (.pgSelect code) .ret
def redisSet (code data : String) (ttl : ℤ) : Method (Option String) :=
  .call (.redisSet code data ttl) .ret
def redisGet (code : String) : Method (Except String (Option String)) :=
  .call (.redisGet code) .ret
def goRedisSet (code data : String) (ttl : ℤ) : Method Unit :=
  .call (.goRedisSet code data ttl) .ret
def timeNow : Method Time := .call .timeNow .ret
def incCacheHit : Method Unit := .call .incCacheHit .ret
def incCacheMiss : Method Unit := .call .incCacheMiss .ret

/-! ## `PgStore` -/

/-- `PgStore.Save`. -/
def PgStore.save (code url : String) (expiresAt : Option Time) : Method (Option StoreError) :=
  pgInsert code url (.ofOption expiresAt)

/-- `PgStore.Lookup`. The result's `ExpiresAt` is `&expiresAt.Time` in every case,
so a row without expiry comes back with the zero time. -/
def PgStore.lookup (code : String) : Method (Option LookupResult × Option StoreError) := do
  match ← pgSelect code with
  | .error err => return (none, some err)
  | .ok none => return (none, none)
  | .ok (some (longURL, expiresAt)) =>
    if expiresAt.valid then
      let now ← timeNow
      if now.after expiresAt.time then
        return (none, some .errExpired)
    return (some ⟨longURL, some expiresAt.time⟩, none)

/-! ## `CachedStore` -/

/-- `json.Marshal` and `json.Unmarshal` at `LookupResult`, with their errors
ignored as the code ignores them. -/
structure Json where
  marshal : LookupResult → String
  unmarshal : String → LookupResult

/-- The fields of `CachedStore` that are values; the clients and the counters are
behind the calls. -/
structure CachedStore where
  json : Json
  ttl : ℤ

/-- `CachedStore.Save`: the primary first, then the write-through. A failing Redis
is logged and forgotten. -/
def CachedStore.save (cs : CachedStore) (code url : String) (expiresAt : Option Time) :
    Method (Option StoreError) := do
  match ← PgStore.save code url expiresAt with
  | some err => return some err
  | none =>
    let ttl ← match expiresAt with
      | none => pure cs.ttl
      | some t => do
        let now ← timeNow
        pure (t.sub now)
    let _ ← redisSet code (cs.json.marshal ⟨url, expiresAt⟩) ttl
    return none

/-- The part of `CachedStore.Lookup` after the cache had no answer: ask the primary
and, on a result, start a backfill. -/
def CachedStore.lookupPrimary (cs : CachedStore) (code : String) :
    Method (Option LookupResult × Option StoreError) := do
  incCacheMiss
  match ← PgStore.lookup code with
  | (some sqlVal, none) =>
    let ttl ← match sqlVal.expiresAt with
      | none => pure cs.ttl
      | some t => do
        let now ← timeNow
        pure (t.sub now)
    goRedisSet code (cs.json.marshal sqlVal) ttl
    return (some sqlVal, none)
  | other => return other

/-- `CachedStore.Lookup`: a hit is returned as it stands; a miss, or a failing
Redis, goes to the primary. -/
def CachedStore.lookup (cs : CachedStore) (code : String) :
    Method (Option LookupResult × Option StoreError) := do
  match ← redisGet code with
  | .ok (some redisVal) =>
    incCacheHit
    return (some (cs.json.unmarshal redisVal), none)
  | _ => cs.lookupPrimary code

/-! ## Postgres, Redis and the clock -/

/-- A Redis entry; `none` as deadline means that it never expires. -/
structure Entry where
  data : String
  deadline : Option ℤ
  deriving DecidableEq, Repr

/-- The state the calls act on. `urls` holds each row as it was inserted. -/
structure Env where
  now : ℤ
  urls : String → Option (String × NullTime)
  redis : String → Option Entry
  cacheHits : ℕ
  cacheMisses : ℕ

/-- Both stores empty, at the epoch. -/
def Env.empty : Env := ⟨0, fun _ => none, fun _ => none, 0, 0⟩

/-- A row as `SELECT original_url, expires_at` reads it. -/
def readRow (row : String × NullTime) : String × NullTime :=
  (row.1, if row.2.valid then ⟨timestampColumn row.2.time, true⟩ else ⟨.zero, false⟩)

/-- `INSERT INTO urls`. -/
def Env.insert (e : Env) (code url : String) (expiresAt : NullTime) : Env :=
  { e with urls := Function.update e.urls code (some (url, expiresAt)) }

/-- The entry a `GET` finds: gone once its time has elapsed. -/
def Env.live (e : Env) (code : String) : Option Entry :=
  match e.redis code with
  | some ⟨data, some d⟩ => if e.now < d then some ⟨data, some d⟩ else none
  | some ⟨data, none⟩ => some ⟨data, none⟩
  | none => none

/-- go-redis' `KeepTTL`. -/
def keepTTL : ℤ := -1

/-- The deadline of a `SET` with duration `ttl`: a positive duration is a lifetime,
`KeepTTL` keeps the one the entry has, anything else is no expiry at all. -/
def Env.deadline (e : Env) (code : String) (ttl : ℤ) : Option ℤ :=
  if 0 < ttl then some (e.now + ttl)
  else if ttl = keepTTL then (e.live code).bind (·.deadline)
  else none

/-- `SET`. -/
def Env.set (e : Env) (code data : String) (ttl : ℤ) : Env :=
  { e with redis := Function.update e.redis code (some ⟨data, e.deadline code ttl⟩) }

/-- What one call may answer and do. Any Postgres or Redis call may fail; a failed
`SET` may have reached Redis or not. `short_code` is `UNIQUE`, so an `INSERT`
succeeds only on a new code. -/
inductive Exec : Env → (c : Call) → Answer c → Env → Prop
  | pgInsert {e : Env} {code url : String} {t : NullTime} (h : e.urls code = none) :
      Exec e (.pgInsert code url t) none (e.insert code url t)
  | pgInsert_fail {e : Env} {code url : String} {t : NullTime} (msg : String) :
      Exec e (.pgInsert code url t) (some (.database msg)) e
  | pgSelect {e : Env} {code : String} :
      Exec e (.pgSelect code) (.ok ((e.urls code).map readRow)) e
  | pgSelect_fail {e : Env} {code : String} (msg : String) :
      Exec e (.pgSelect code) (.error (.database msg)) e
  | redisSet {e : Env} {code data : String} {ttl : ℤ} :
      Exec e (.redisSet code data ttl) none (e.set code data ttl)
  | redisSet_lost {e : Env} {code data : String} {ttl : ℤ} (msg : String) :
      Exec e (.redisSet code data ttl) (some msg) e
  | redisSet_late {e : Env} {code data : String} {ttl : ℤ} (msg : String) :
      Exec e (.redisSet code data ttl) (some msg) (e.set code data ttl)
  | redisGet {e : Env} {code : String} :
      Exec e (.redisGet code) (.ok ((e.live code).map (·.data))) e
  | redisGet_fail {e : Env} {code : String} (msg : String) :
      Exec e (.redisGet code) (.error msg) e
  | goRedisSet {e : Env} {code data : String} {ttl : ℤ} : Exec e (.goRedisSet code data ttl) () e
  | timeNow {e : Env} {offset : ℤ} : Exec e .timeNow ⟨e.now, offset⟩ e
  | incCacheHit {e : Env} :
      Exec e .incCacheHit () { e with cacheHits := e.cacheHits + 1 }
  | incCacheMiss {e : Env} :
      Exec e .incCacheMiss () { e with cacheMisses := e.cacheMisses + 1 }

/-- What happens by itself: time passes, and Redis may lose any entries. -/
structure Drift (e e' : Env) : Prop where
  now : e.now ≤ e'.now
  urls : e'.urls = e.urls
  redis : ∀ code, e'.redis code = e.redis code ∨ e'.redis code = none

/-- Each call when nothing fails. -/
def answer (e : Env) : (c : Call) → Answer c × Env
  | .pgInsert code url t =>
    if e.urls code = none then (none, e.insert code url t)
    else (some (.database "duplicate key value violates unique constraint"), e)
  | .pgSelect code => (.ok ((e.urls code).map readRow), e)
  | .redisSet code data ttl => (none, e.set code data ttl)
  | .redisGet code => (.ok ((e.live code).map (·.data)), e)
  | .goRedisSet .. => ((), e)
  | .timeNow => (⟨e.now, 0⟩, e)
  | .incCacheHit => ((), { e with cacheHits := e.cacheHits + 1 })
  | .incCacheMiss => ((), { e with cacheMisses := e.cacheMisses + 1 })

theorem exec_answer (e : Env) (c : Call) : Exec e c (answer e c).1 (answer e c).2 := by
  cases c with
  | pgInsert code url t =>
      simp only [answer]
      split
      · rename_i h
        exact .pgInsert h
      · exact .pgInsert_fail _
  | pgSelect code => exact .pgSelect
  | redisSet code data ttl => exact .redisSet
  | redisGet code => exact .redisGet
  | goRedisSet code data ttl => exact .goRedisSet
  | timeNow => exact .timeNow
  | incCacheHit => exact .incCacheHit
  | incCacheMiss => exact .incCacheMiss

/-- A `Save` that succeeds has inserted a new row, and one that fails has done nothing. -/
theorem PgStore.save_ends {e e' : Env} {code url : String} {expiresAt : Option Time}
    {r : Option StoreError} (h : (PgStore.save code url expiresAt).Ends Exec e (.ok r) e') :
    (r = none ∧ e.urls code = none ∧ e' = e.insert code url (.ofOption expiresAt)) ∨
      (r ≠ none ∧ e' = e) := by
  unfold PgStore.save pgInsert at h
  cases h with
  | call hexec hend =>
      cases hend
      cases hexec with
      | pgInsert hnew => exact .inl ⟨rfl, hnew, rfl⟩
      | pgInsert_fail msg => exact .inr ⟨Option.some_ne_none _, rfl⟩

/-- A `Lookup` changes nothing, and finds nothing only where there is no row. -/
theorem PgStore.lookup_always {e : Env} {code : String} :
    (PgStore.lookup code).Always Exec e fun o e' =>
      e' = e ∧ (o = .ok (none, none) → e.urls code = none) := by
  unfold PgStore.lookup pgSelect
  intro r e' hexec
  cases hexec with
  | pgSelect_fail msg => exact ⟨rfl, fun h => by cases h⟩
  | pgSelect =>
      cases hrow : e.urls code with
      | none => exact ⟨rfl, fun _ => rfl⟩
      | some row =>
          by_cases hvalid : (readRow row).2.valid
          · simp only [Option.map_some, Prog.bind, hvalid, if_true]
            intro now e'' hclock
            cases hclock
            simp only [Prog.bind]
            split <;> exact ⟨rfl, fun h => by cases h⟩
          · simp only [Option.map_some, Prog.bind, hvalid]
            exact ⟨rfl, fun h => by cases h⟩

/-- What `PgStore.Lookup` gives when it runs alone in `e` and nothing fails. -/
def PgStore.lookupAt (e : Env) (code : String) : Option LookupResult × Option StoreError :=
  match ((PgStore.lookup code).run (fun c e => answer e c) e).1 with
  | .ok r => r
  | .error x => x.elim

theorem PgStore.ends_lookupAt {e : Env} {code : String} :
    (PgStore.lookup code).Ends Exec e (.ok (PgStore.lookupAt e code)) e := by
  have hrun := Prog.Ends.of_run (fun c e => exec_answer e c) (PgStore.lookup code) e
  have hsame := (Prog.always_iff.mp PgStore.lookup_always _ _ hrun).1
  unfold PgStore.lookupAt
  rw [hsame] at hrun
  cases hend : ((PgStore.lookup code).run (fun c e => answer e c) e).1 with
  | ok r => rwa [hend] at hrun
  | error x => exact x.elim

theorem PgStore.lookupAt_absent {e : Env} {code : String} (h : e.urls code = none) :
    PgStore.lookupAt e code = (none, none) := by
  simp [PgStore.lookupAt, PgStore.lookup, pgSelect, answer, h]

/-- A row without expiry is found at any time. -/
theorem PgStore.lookupAt_permanent {e : Env} {code url : String} {t : NullTime}
    (h : e.urls code = some (url, t)) (ht : t.valid = false) :
    PgStore.lookupAt e code = (some ⟨url, some .zero⟩, none) := by
  simp [PgStore.lookupAt, PgStore.lookup, pgSelect, answer, h, readRow, ht]

/-! ## The server -/

/-- The calls of `CachedStore` that may be in progress, and the backfills that
outlive the `Lookup` that started them. -/
inductive Request : Type where
  | save (code url : String) (expiresAt : Option Time)
  | lookup (code : String)
  | backfill (code data : String) (ttl : ℤ)
  deriving DecidableEq

/-- What the three kinds of request return. -/
inductive Reply : Type where
  | saved (err : Option StoreError)
  | found (res : Option LookupResult) (err : Option StoreError)
  | filled
  deriving DecidableEq

def CachedStore.body (cs : CachedStore) : Request → Method Reply
  | .save code url expiresAt => do
    let err ← cs.save code url expiresAt
    return .saved err
  | .lookup code => do
    let r ← cs.lookup code
    return .found r.1 r.2
  | .backfill code data ttl => do
    let _ ← redisSet code data ttl
    return .filled

/-- The backfill a `go cs.redis.Set(...)` starts. -/
def spawned : Call → List Request
  | .goRedisSet code data ttl => [.backfill code data ttl]
  | _ => []

/-- `CachedStore` over `PgStore` with any number of calls in progress; `admits`
says which calls are made. -/
def CachedStore.system (cs : CachedStore) (admits : Request → Prop) :
    System Env Request Call Answer Empty Reply where
  body := cs.body
  admits := admits
  exec := Exec
  drift := Drift
  spawn := spawned

end EngineeringLab.Shortener
