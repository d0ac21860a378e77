/-
The per-IP rate limiter under concurrency (`middleware/ratelimit.go`).

A request fetches its entry, marks it as seen, and asks its bucket, in three steps; the sweep
tests an entry under the entry's lock and deletes it from the map, in two. The lock does not
cover the map, so a request can fetch an entry between the test and the deletion. It then asks
a bucket that the map has lost, while the requests after it ask a new one, and more is admitted
than one bucket would admit (`twenty_one_at_once`).

Where a sweep deletes only entries that no request holds and whose buckets are full, the bound
of a single bucket holds in every window (`admissions_bounded`). What carries the proof: then
the entry that a request holds is always the one in the map (`Orderly.held`).
-/
import EngineeringLab.Concurrency.Machine
import EngineeringLab.Shortener.RateLimit

set_option autoImplicit false

open Concurrency Rate

namespace EngineeringLab.Shortener

/-! ## The buckets of the map -/

namespace IPRateLimiter

/-- The bucket that the next request of an address will ask. -/
def bucket (l : IPRateLimiter) (ip : String) : Bucket limit :=
  match l.ips ip with
  | some id => (l.entries id).limiter
  | none => .full limit 0

section

variable {l : IPRateLimiter} {ip : String} {id : ℕ}

theorem bucket_of_some (h : l.ips ip = some id) : l.bucket ip = (l.entries id).limiter := by
  unfold bucket
  rw [h]

theorem bucket_of_none (h : l.ips ip = none) : l.bucket ip = .full limit 0 := by
  unfold bucket
  rw [h]

/-- A new entry has the bucket that the address would have been given. -/
theorem bucket_loadOrStore (l : IPRateLimiter) (ip : String) (now : ℚ) :
    (l.loadOrStore ip (.new now)).2.bucket = l.bucket := by
  cases h : l.ips ip with
  | some id => rw [loadOrStore_of_some h]
  | none =>
      obtain ⟨-, hips, hentries⟩ := loadOrStore_of_none (e := .new now) h
      funext ip'
      by_cases hsame : ip' = ip
      · have hnew : (l.loadOrStore ip (.new now)).2.ips ip = some l.fresh := by
          rw [hips, Function.update_self]
        rw [hsame, bucket_of_some hnew, bucket_of_none h, hentries, Function.update_self]
        rfl
      · have hkeep := loadOrStore_other (l := l) (e := .new now) hsame
        cases hid : l.ips ip' with
        | some id =>
            rw [bucket_of_some (hkeep.trans hid), bucket_of_some hid,
              entries_loadOrStore (l.bound ip' id hid)]
        | none => rw [bucket_of_none (hkeep.trans hid), bucket_of_none hid]

/-- An address keeps the entry it has. -/
theorem loadOrStore_keeps {e : IpStoreEntry} {ip' : String} (h : l.ips ip' = some id) :
    (l.loadOrStore ip e).2.ips ip' = some id := by
  by_cases hsame : ip' = ip
  · rw [← hsame, loadOrStore_of_some h]
    exact h
  · rw [loadOrStore_other hsame, h]

theorem bucket_modify (h : l.ips ip = some id) (f : IpStoreEntry → IpStoreEntry) :
    (l.modify id f).bucket = Function.update l.bucket ip (f (l.entries id)).limiter := by
  funext ip'
  by_cases hsame : ip' = ip
  · rw [hsame, Function.update_self, bucket_of_some (show (l.modify id f).ips ip = some id from h),
      entries_modify_self]
  · rw [Function.update_of_ne hsame]
    cases hid : l.ips ip' with
    | some id' =>
        rw [bucket_of_some (show (l.modify id f).ips ip' = some id' from hid), bucket_of_some hid,
          entries_modify_other (ne_of_ips h hid hsame)]
    | none => rw [bucket_of_none (by exact hid), bucket_of_none hid]

theorem bucket_see (h : l.ips ip = some id) (now : ℚ) : (l.see id now).bucket = l.bucket := by
  rw [see, bucket_modify h, ← bucket_of_some h, Function.update_eq_self]

theorem bucket_allow (h : l.ips ip = some id) (now : ℚ) :
    (l.allow id now).2.bucket = Function.update l.bucket ip ((l.bucket ip).allow now).2 := by
  rw [allow, bucket_modify h, bucket_of_some h]

theorem bucket_delete_other {key : String} (h : ip ≠ key) :
    (l.delete key).bucket ip = l.bucket ip := by
  have hips : (l.delete key).ips ip = l.ips ip := Function.update_of_ne h ..
  unfold bucket
  rw [hips]
  rfl

end

end IPRateLimiter

/-! ## The parties -/

/-- A request in `RateLimiter`, by the step it is at; its address is `ip`, its entry `id`. -/
inductive Limited where
  | timeNow (ip : String)
  | loadOrStore (ip : String) (now : ℚ)
  | see (ip : String) (id : ℕ)
  | allow (ip : String) (id : ℕ)
  | answered (passage : Passage)

/-- The address and the entry of a request that has fetched its entry and not asked it yet. -/
def Limited.entry : Limited → Option (String × ℕ)
  | .see ip id => some (ip, id)
  | .allow ip id => some (ip, id)
  | _ => none

/-- `cleanup`: in `time.Sleep`, in `Range` with the keys it has seen, before the lock of an
entry, and under it before `Delete`. -/
inductive Cleanup where
  | sleeping (wakes : ℚ)
  | ranging (keys : List String)
  | checking (keys : List String) (key : String) (id : ℕ)
  | deleting (keys : List String) (key : String) (id : ℕ)

/-- The key and the entry that the sweep has in hand. -/
def Cleanup.entry : Cleanup → Option (String × ℕ)
  | .checking _ key id => some (key, id)
  | .deleting _ key id => some (key, id)
  | _ => none

/-- Does the sweep hold the entry's lock? A request holds it for one step. -/
def Cleanup.locks : Cleanup → ℕ → Bool
  | .deleting _ _ id', id => id' = id
  | _, _ => false

/-- The limiter, the clock, the requests, the sweep, and who was admitted when, newest first. -/
structure Middleware where
  limiter : IPRateLimiter
  now : ℚ
  requests : List Limited
  cleanup : Cleanup
  admitted : List (String × ℚ)

/-- What can happen next; `request i` is the next step of the `i`-th request. -/
inductive MiddlewareMove where
  | tick (seconds : ℚ)
  | arrive (remoteAddr : String)
  | request (i : ℕ)
  | wake
  | visit (key : String)
  | check
  | delete
  | sleep

/-- `RateLimiter`. The clock is read before `LoadOrStore`, for an entry that may be new. -/
def Middleware.requestStep (s : Middleware) (i : ℕ) : Option Middleware :=
  match s.requests[i]? with
  | some (.timeNow ip) => some { s with requests := s.requests.set i (.loadOrStore ip s.now) }
  | some (.loadOrStore ip now) =>
    let (id, limiter) := s.limiter.loadOrStore ip (.new now)
    some { s with limiter := limiter, requests := s.requests.set i (.see ip id) }
  | some (.see ip id) =>
    -- the sweep holds the entry's lock while it compares
    if s.cleanup.locks id then none
    else some { s with
      limiter := s.limiter.see id s.now
      requests := s.requests.set i (.allow ip id) }
  | some (.allow ip id) =>
    let (allowed, limiter) := s.limiter.allow id s.now
    some { s with
      limiter := limiter
      requests := s.requests.set i (.answered (.ofAllow allowed))
      admitted := if allowed then (ip, s.now) :: s.admitted else s.admitted }
  | _ => none

/-- One step. `Range` gives each key once at most, with the entry it has then. -/
def Middleware.step (s : Middleware) : MiddlewareMove → Option Middleware
  | .tick seconds => if 0 ≤ seconds then some { s with now := s.now + seconds } else none
  | .arrive remoteAddr =>
    some { s with requests := s.requests ++ [.timeNow (clientIP remoteAddr)] }
  | .request i => s.requestStep i
  | .wake =>
    match s.cleanup with
    | .sleeping wakes => if wakes ≤ s.now then some { s with cleanup := .ranging [] } else none
    | _ => none
  | .visit key =>
    match s.cleanup, s.limiter.ips key with
    | .ranging keys, some id =>
      if key ∈ keys then none else some { s with cleanup := .checking keys key id }
    | _, _ => none
  -- the deletion is a step of its own: others may move before it
  | .check =>
    match s.cleanup with
    | .checking keys key id =>
      if s.limiter.expired id s.now then some { s with cleanup := .deleting keys key id }
      else some { s with cleanup := .ranging (key :: keys) }
    | _ => none
  | .delete =>
    match s.cleanup with
    | .deleting keys key _ =>
      some { s with limiter := s.limiter.delete key, cleanup := .ranging (key :: keys) }
    | _ => none
  | .sleep =>
    match s.cleanup with
    | .ranging _ => some { s with cleanup := .sleeping (s.now + 60) }
    | _ => none

/-- The middleware of a server that starts at time `now`. -/
def middleware (now : ℚ) : Machine Middleware MiddlewareMove where
  start := ⟨.new, now, [], .sleeping (now + 60), []⟩
  step := Middleware.step

/-- Before a deletion: no request holds the entry, and its bucket is full. -/
def sparesEntry (s : Middleware) (move : MiddlewareMove) : Bool :=
  match move, s.cleanup with
  | .delete, .deleting _ _ id =>
    s.requests.all (fun r => r.entry.all fun held => held.2 ≠ id) &&
      decide ((s.limiter.entries id).limiter.level s.now = limit.burst)
  | _, _ => true

/-! ## The bound -/

/-- When an address was admitted. -/
def Middleware.times (s : Middleware) (ip : String) : List ℚ :=
  (s.admitted.filter fun a => a.1 = ip).map Prod.snd

/-- What every step keeps that spares the entries in use: each address is within the bound of
the bucket that it will ask next, and what a request or the sweep has in hand is in the map. -/
structure Orderly (s : Middleware) : Prop where
  admitting : ∀ ip, Admitting (s.limiter.bucket ip) s.now (s.times ip)
  held : ∀ r ∈ s.requests, ∀ ip id, r.entry = some (ip, id) → s.limiter.ips ip = some id
  swept : ∀ key id, s.cleanup.entry = some (key, id) → s.limiter.ips key = some id

section

variable {s s' : Middleware}

/-- A request that goes on, and has in hand what is in the map. -/
theorem Orderly.set (h : Orderly s) {i : ℕ} {r : Limited}
    (hr : ∀ ip id, r.entry = some (ip, id) → s.limiter.ips ip = some id) :
    Orderly { s with requests := s.requests.set i r } where
  admitting := h.admitting
  held r' hr' := by
    rcases List.mem_or_eq_of_mem_set hr' with hold | rfl
    · exact h.held r' hold
    · exact hr
  swept := h.swept

/-- A change of the limiter that leaves the buckets as they are and deletes nothing. -/
theorem Orderly.limiter (h : Orderly s) {l : IPRateLimiter} (hbucket : l.bucket = s.limiter.bucket)
    (hips : ∀ ip id, s.limiter.ips ip = some id → l.ips ip = some id) :
    Orderly { s with limiter := l } where
  admitting ip := by
    rw [hbucket]
    exact h.admitting ip
  held r hr ip id he := hips ip id (h.held r hr ip id he)
  swept key id he := hips key id (h.swept key id he)

theorem Orderly.cleanup (h : Orderly s) {c : Cleanup}
    (hc : ∀ key id, c.entry = some (key, id) → s.limiter.ips key = some id) :
    Orderly { s with cleanup := c } where
  admitting := h.admitting
  held := h.held
  swept := hc

/-- A request asks its bucket: it is the bucket of its address in the map. -/
theorem Orderly.allow (h : Orderly s) {i id : ℕ} {ip : String}
    (hi : s.requests[i]? = some (.allow ip id)) {requests : List Limited}
    (hrequests : requests = s.requests.set i
      (.answered (.ofAllow (s.limiter.allow id s.now).1))) :
    Orderly { s with
      limiter := (s.limiter.allow id s.now).2
      requests := requests
      admitted :=
        if (s.limiter.allow id s.now).1 then (ip, s.now) :: s.admitted else s.admitted } := by
  -- the sweep has not taken the entry out, so the bucket asked is that of the map
  have hid : s.limiter.ips ip = some id := h.held _ (List.mem_of_getElem? hi) ip id rfl
  have hallowed : (s.limiter.allow id s.now).1 = ((s.limiter.bucket ip).allow s.now).1 := by
    rw [IPRateLimiter.allow, IPRateLimiter.bucket_of_some hid]
  refine ⟨fun ip' => ?_, fun r hr => ?_, h.swept⟩
  · change Admitting ((s.limiter.allow id s.now).2.bucket ip') s.now
      (((if (s.limiter.allow id s.now).1 then (ip, s.now) :: s.admitted else s.admitted).filter
        fun a => a.1 = ip').map Prod.snd)
    rw [IPRateLimiter.bucket_allow hid, hallowed]
    by_cases hsame : ip' = ip
    · rw [hsame, Function.update_self]
      by_cases hyes : ((s.limiter.bucket ip).allow s.now).1 = true
      · rw [if_pos hyes, List.filter_cons_of_pos (by simp), List.map_cons]
        -- an admission takes a token, and is on the list
        exact (h.admitting ip).admitted hyes
      · rw [Bool.not_eq_true] at hyes
        rw [hyes, Bucket.allow_refused hyes]
        exact h.admitting ip
    · -- what this address is told is not counted for another
      rw [Function.update_of_ne hsame]
      have htimes : ((if ((s.limiter.bucket ip).allow s.now).1 then (ip, s.now) :: s.admitted
          else s.admitted).filter fun a => a.1 = ip') = s.admitted.filter fun a => a.1 = ip' := by
        split
        · rw [List.filter_cons_of_neg (by simpa using Ne.symm hsame)]
        · rfl
      rw [htimes]
      exact h.admitting ip'
  · rw [hrequests] at hr
    rcases List.mem_or_eq_of_mem_set hr with hold | rfl
    · exact h.held r hold
    · intro ip' id' he
      cases he

theorem Orderly.requestStep (h : Orderly s) {i : ℕ} (hstep : s.requestStep i = some s') :
    Orderly s' := by
  unfold Middleware.requestStep at hstep
  split at hstep
  · cases hstep
    exact h.set fun ip id he => by cases he
  · rename_i ip now hi
    cases hstep
    -- the new entry's clock reading may be old; its bucket is full all the same
    have hstored : Orderly { s with limiter := (s.limiter.loadOrStore ip (.new now)).2 } :=
      h.limiter (IPRateLimiter.bucket_loadOrStore ..) fun _ _ hid =>
        IPRateLimiter.loadOrStore_keeps hid
    refine hstored.set fun ip' id he => ?_
    cases he
    exact IPRateLimiter.ips_loadOrStore ..
  · rename_i ip id hi
    split at hstep
    · cases hstep
    · cases hstep
      have hid := h.held _ (List.mem_of_getElem? hi) ip id rfl
      have hseen : Orderly { s with limiter := s.limiter.see id s.now } :=
        h.limiter (IPRateLimiter.bucket_see hid s.now) fun _ _ hid' => hid'
      refine hseen.set fun ip' id' he => ?_
      cases he
      exact hid
  · rename_i ip id hi
    cases hstep
    exact h.allow hi rfl
  · cases hstep

/-- A deletion that spares the entries in use: whoever asks next gets no more than before. -/
theorem Orderly.delete (h : Orderly s) {keys : List String} {key : String} {id : ℕ}
    (hcleanup : s.cleanup = .deleting keys key id) (hok : sparesEntry s .delete = true) :
    Orderly { s with limiter := s.limiter.delete key, cleanup := .ranging (key :: keys) } := by
  have hid : s.limiter.ips key = some id := h.swept key id (by rw [hcleanup]; rfl)
  unfold sparesEntry at hok
  rw [hcleanup] at hok
  simp only [Bool.and_eq_true, List.all_eq_true, decide_eq_true_eq] at hok
  obtain ⟨hspared, hfull⟩ := hok
  refine ⟨fun ip => ?_, fun r hr ip id' he => ?_, fun key' id' he => by cases he⟩
  · by_cases hsame : ip = key
    · have hgone : (s.limiter.delete key).ips ip = none := by
        rw [hsame]
        exact Function.update_self ..
      have hold := h.admitting ip
      rw [hsame, IPRateLimiter.bucket_of_some hid] at hold
      rw [IPRateLimiter.bucket_of_none hgone, hsame]
      exact hold.replace (by rw [hfull]; exact Bucket.level_le _ _)
    · rw [IPRateLimiter.bucket_delete_other hsame]
      exact h.admitting ip
  · have hmap := h.held r hr ip id' he
    -- the entry of `key` is held by nobody, so `ip` is another address
    have hother : ip ≠ key := by
      rintro rfl
      rw [hid, Option.some.injEq] at hmap
      have hnot := hspared r hr
      rw [he, hmap] at hnot
      simp at hnot
    exact (Function.update_of_ne hother ..).trans hmap

theorem Orderly.step (h : Orderly s) {move : MiddlewareMove} (hok : sparesEntry s move = true)
    (hstep : s.step move = some s') : Orderly s' := by
  cases move with
  | tick seconds =>
      simp only [Middleware.step] at hstep
      split at hstep
      · rename_i hseconds
        cases hstep
        exact ⟨fun ip => (h.admitting ip).wait (by simpa using hseconds), h.held, h.swept⟩
      · cases hstep
  | arrive remoteAddr =>
      cases hstep
      refine ⟨h.admitting, fun r hr => ?_, h.swept⟩
      rcases List.mem_append.mp hr with hold | hnew
      · exact h.held r hold
      · rw [List.mem_singleton.mp hnew]
        intro ip id he
        cases he
  | request i => exact h.requestStep hstep
  -- The cleanup pass: every move of it but the delete leaves the limiters as they are.
  | wake =>
      simp only [Middleware.step] at hstep
      split at hstep
      · split at hstep
        · cases hstep
          exact h.cleanup fun key id he => by cases he
        · cases hstep
      · cases hstep
  | visit key =>
      simp only [Middleware.step] at hstep
      split at hstep
      · rename_i keys id hcleanup hid
        split at hstep
        · cases hstep
        · cases hstep
          refine h.cleanup fun key' id' he => ?_
          cases he
          exact hid
      · cases hstep
  | check =>
      simp only [Middleware.step] at hstep
      split at hstep
      · rename_i keys key id hcleanup
        split at hstep
        · cases hstep
          refine h.cleanup fun key' id' he => h.swept key' id' ?_
          rw [hcleanup]
          exact he
        · cases hstep
          exact h.cleanup fun key' id' he => by cases he
      · cases hstep
  | delete =>
      simp only [Middleware.step] at hstep
      split at hstep
      · rename_i keys key id hcleanup
        cases hstep
        -- The one move the condition is about.
        exact h.delete hcleanup hok
      · cases hstep
  | sleep =>
      simp only [Middleware.step] at hstep
      split at hstep
      · cases hstep
        exact h.cleanup fun key id he => by cases he
      · cases hstep

/-- How often an address was admitted between `t` and `t'`. -/
def Middleware.admittedBetween (s : Middleware) (ip : String) (t t' : ℚ) : ℕ :=
  s.admitted.countP fun a => a.1 = ip ∧ t ≤ a.2 ∧ a.2 ≤ t'

theorem Middleware.admittedBetween_eq (ip : String) (t t' : ℚ) :
    s.admittedBetween ip t t' = (s.times ip).countP fun u => t ≤ u ∧ u ≤ t' := by
  rw [Middleware.times, List.countP_map, List.countP_filter]
  refine List.countP_congr fun a _ => ?_
  simp only [Function.comp_apply, decide_eq_true_eq, Bool.and_eq_true]
  exact and_comm

theorem orderly_start (now : ℚ) : Orderly (middleware now).start where
  admitting _ := admitting_nil _ now
  held _ hr := by cases hr
  swept _ _ he := by cases he

/-- **The bound of one bucket, where the sweep spares what is in use**: in every run whose
deletions are all of full buckets that no request holds, an address is admitted between `t`
and `t'` at most `20 + 10 * (t' - t)` times. -/
theorem admissions_bounded {now : ℚ} {moves : List MiddlewareMove}
    (h : (middleware now).run moves = some s)
    (hok : (middleware now).Meets (fun s move => sparesEntry s move = true)
      (middleware now).start moves) (ip : String) {t t' : ℚ} (ht : t ≤ t') :
    (s.admittedBetween ip t t' : ℚ) ≤ 20 + 10 * (t' - t) := by
  have horderly : Orderly s := Machine.invariant_of_meets (I := Orderly)
    (fun _ _ _ hs hmove hstep => hs.step hmove hstep) (orderly_start now) hok h
  rw [Middleware.admittedBetween_eq]
  exact (horderly.admitting ip).window t t' ht

end

/-! ## Two runs -/

/-- The `i`-th request arrives, and is answered before anything else happens. -/
def servedAlone (i : ℕ) : List MiddlewareMove :=
  .arrive "10.0.0.1:5000" :: List.replicate 4 (.request i)

/-- A request, and three minutes later a sweep that deletes its entry. -/
def sweptWhenIdle : List MiddlewareMove :=
  servedAlone 0 ++
    [.tick 181, .wake, .visit "10.0.0.1", .check, .delete, .sleep] ++ servedAlone 1

theorem runs_sweptWhenIdle : ((middleware 0).run sweptWhenIdle).isSome = true := by decide +kernel

/-- An address asks, is swept away when it has been idle for three minutes, and asks again:
both requests are admitted, and the bound would allow many more. -/
theorem admissions_bounded_example :
    ∃ s, (middleware 0).run sweptWhenIdle = some s ∧ s.admittedBetween "10.0.0.1" 0 181 = 2 ∧
      (s.admittedBetween "10.0.0.1" 0 181 : ℚ) ≤ 20 + 10 * (181 - 0) := by
  have hrun := (Option.some_get runs_sweptWhenIdle).symm
  exact ⟨_, hrun, by decide +kernel,
    admissions_bounded hrun (by decide +kernel) "10.0.0.1" (by norm_num)⟩

/-- Three minutes after an address was seen, the sweep finds its entry idle. Before it deletes
the entry, another request fetches it. Twenty requests after the deletion ask a new bucket;
then the one that waited asks the old one. -/
def fetchedBeforeDeletion : List MiddlewareMove :=
  servedAlone 0 ++
    [.tick 181, .wake, .visit "10.0.0.1", .check, .arrive "10.0.0.1:5001", .request 1, .request 1,
      .delete] ++
    (List.range 20).flatMap (fun k => servedAlone (k + 2)) ++ [.request 1, .request 1]

theorem runs_fetchedBeforeDeletion :
    ((middleware 0).run fetchedBeforeDeletion).isSome = true := by decide +kernel

/-- **Twenty-one requests of one address are admitted at one moment**, where a bucket of
twenty could admit twenty. -/
theorem twenty_one_at_once :
    ∃ s, (middleware 0).run fetchedBeforeDeletion = some s ∧
      s.admittedBetween "10.0.0.1" 181 181 = 21 ∧
      ¬(s.admittedBetween "10.0.0.1" 181 181 : ℚ) ≤ 20 + 10 * (181 - 181) := by
  have hcount : (((middleware 0).run fetchedBeforeDeletion).get
      runs_fetchedBeforeDeletion).admittedBetween "10.0.0.1" 181 181 = 21 := by decide +kernel
  refine ⟨_, (Option.some_get runs_fetchedBeforeDeletion).symm, hcount, ?_⟩
  rw [hcount]
  norm_num

end EngineeringLab.Shortener
