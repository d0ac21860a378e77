/-
The per-IP rate limiter (`middleware/ratelimit.go`), one request or sweep after the other.

Each address has a token bucket of its own, made by its first request. A sweep takes the
entries out of the map that nobody has asked for during three minutes, and the next request
from such an address starts with a full bucket.

No one can see that (`eviction_invisible`): a bucket fills in two seconds, so one that has been
idle for three minutes is full, and would decide as the new one does. What carries the proof is
that an entry is full two seconds after it was last seen (`Stands.idle`), which holds because
a refused request is also a sighting and takes no token.

Time is in seconds, and rational. An entry is a pointer: the map holds addresses, and the
entries stand in a memory that only grows.
-/
import EngineeringLab.Rate.TokenBucket
import Mathlib.Algebra.Order.Field.Rat
import Mathlib.Logic.Function.Basic
import Mathlib.Tactic.NormNum

set_option autoImplicit false

open Rate

namespace EngineeringLab.Shortener

/-! ## Addresses -/

/-- `bytealg.LastIndexByteString`. -/
def lastIndex (s : List Char) (c : Char) : Option ℕ :=
  (s.reverse.idxOf? c).map fun k => s.length - 1 - k

/-- `net.SplitHostPort`, without the texts of its errors: the host and the port. The port is
behind the last colon, and a host in brackets may have colons of its own. -/
def splitHostPort (hostport : List Char) : Option (List Char × List Char) := do
  -- the port starts after the last colon
  let i ← lastIndex hostport ':'
  let (host, j, k) ←
    if hostport.head? = some '[' then
      match hostport.idxOf? ']' with
      | none => none
      | some e => if e + 1 = i then some ((hostport.take e).drop 1, 1, e + 1) else none
    else if ':' ∈ hostport.take i then none
    else some (hostport.take i, 0, 0)
  if '[' ∈ hostport.drop j then none
  else if ']' ∈ hostport.drop k then none
  else some (host, hostport.drop (i + 1))

/-- The key of a request: the host, or the whole of `RemoteAddr` where it does not split. -/
def clientIP (remoteAddr : String) : String :=
  match splitHostPort remoteAddr.toList with
  | some (host, _) => String.ofList host
  | none => remoteAddr

example : clientIP "[::1]:52100" = "::1" ∧ clientIP "unix" = "unix" := by decide

/-! ## The limiter -/

/-- `rate.NewLimiter(10, 20)`. -/
def limit : Limit ℚ := ⟨10, 20, by norm_num, by norm_num⟩

/-- `ipStoreEntry`: the bucket of an address, and when the address was last seen. -/
structure IpStoreEntry where
  limiter : Bucket limit
  lastSeen : ℚ

/-- `&ipStoreEntry{limiter: rate.NewLimiter(10, 20), lastSeen: now}`. -/
def IpStoreEntry.new (now : ℚ) : IpStoreEntry := ⟨.full limit 0, now⟩

/-- `IPRateLimiter`, with the entries made so far, at the addresses below `fresh`. An entry
stays where it is when the sweep takes it out of the map, as a request may still hold its
pointer; and no two addresses share an entry. -/
structure IPRateLimiter where
  ips : String → Option ℕ
  entries : ℕ → IpStoreEntry
  fresh : ℕ
  bound : ∀ ip id, ips ip = some id → id < fresh
  distinct : ∀ ip ip' id, ips ip = some id → ips ip' = some id → ip = ip'

namespace IPRateLimiter

/-- `NewIPRateLimiter`. -/
def new : IPRateLimiter where
  ips _ := none
  entries _ := .new 0
  fresh := 0
  bound _ _ h := by cases h
  distinct _ _ _ h := by cases h

/-- `i.ips.LoadOrStore(ip, e)`: the entry of the address if it has one, and the new one
otherwise, which gets the next free place. -/
def loadOrStore (l : IPRateLimiter) (ip : String) (e : IpStoreEntry) : ℕ × IPRateLimiter :=
  match h : l.ips ip with
  | some id => (id, l)
  | none => (l.fresh,
      { ips := Function.update l.ips ip (some l.fresh)
        entries := Function.update l.entries l.fresh e
        fresh := l.fresh + 1
        bound := by
          intro ip' id h'
          by_cases hip : ip' = ip
          · rw [hip, Function.update_self] at h'
            cases h'
            exact Nat.lt_succ_self _
          · rw [Function.update_of_ne hip] at h'
            exact (l.bound ip' id h').trans (Nat.lt_succ_self _)
        distinct := by
          intro ip₁ ip₂ id h₁ h₂
          by_cases hip₁ : ip₁ = ip
          · by_cases hip₂ : ip₂ = ip
            · rw [hip₁, hip₂]
            · rw [hip₁, Function.update_self, Option.some.injEq] at h₁
              rw [Function.update_of_ne hip₂, ← h₁] at h₂
              exact absurd (l.bound _ _ h₂) (lt_irrefl _)
          · rw [Function.update_of_ne hip₁] at h₁
            by_cases hip₂ : ip₂ = ip
            · rw [hip₂, Function.update_self, Option.some.injEq] at h₂
              rw [← h₂] at h₁
              exact absurd (l.bound _ _ h₁) (lt_irrefl _)
            · rw [Function.update_of_ne hip₂] at h₂
              exact l.distinct ip₁ ip₂ id h₁ h₂ })

/-- A write through a pointer to an entry. -/
def modify (l : IPRateLimiter) (id : ℕ) (f : IpStoreEntry → IpStoreEntry) : IPRateLimiter :=
  { l with entries := Function.update l.entries id (f (l.entries id)) }

/-- `lastSeen = now`, under the entry's lock. -/
def see (l : IPRateLimiter) (id : ℕ) (now : ℚ) : IPRateLimiter :=
  l.modify id fun e => { e with lastSeen := now }

/-- `limiter.Allow()`. -/
def allow (l : IPRateLimiter) (id : ℕ) (now : ℚ) : Bool × IPRateLimiter :=
  (((l.entries id).limiter.allow now).1,
    l.modify id fun e => { e with limiter := (e.limiter.allow now).2 })

/-- `time.Since(e.lastSeen) > 3*time.Minute`. -/
def expired (l : IPRateLimiter) (id : ℕ) (now : ℚ) : Bool := 180 < now - (l.entries id).lastSeen

/-- `i.ips.Delete(key)`. -/
def delete (l : IPRateLimiter) (key : String) : IPRateLimiter :=
  { l with
    ips := Function.update l.ips key none
    bound := by
      intro ip id h
      by_cases hip : ip = key
      · rw [hip, Function.update_self] at h
        cases h
      · rw [Function.update_of_ne hip] at h
        exact l.bound ip id h
    distinct := by
      intro ip ip' id h h'
      by_cases hip : ip = key
      · rw [hip, Function.update_self] at h
        cases h
      · by_cases hip' : ip' = key
        · rw [hip', Function.update_self] at h'
          cases h'
        · rw [Function.update_of_ne hip] at h
          rw [Function.update_of_ne hip'] at h'
          exact l.distinct ip ip' id h h' }

end IPRateLimiter

/-- How the middleware ends: in `next.ServeHTTP`, or in `http.Error`. -/
inductive Passage where
  | next
  | error (text : String) (code : ℕ)
  deriving DecidableEq, Repr

/-- What the middleware makes of the answer of `Allow`: the request goes on, or is told 429. -/
def Passage.ofAllow (allowed : Bool) : Passage :=
  if !allowed then .error "Too Many Requests" 429 else .next

theorem passage_next_iff {allowed : Bool} : Passage.ofAllow allowed = .next ↔ allowed = true := by
  cases allowed <;> simp [Passage.ofAllow]

namespace IPRateLimiter

/-- `IPRateLimiter.RateLimiter`, at one moment. -/
def rateLimiter (l : IPRateLimiter) (now : ℚ) (remoteAddr : String) : Passage × IPRateLimiter :=
  let (id, l) := l.loadOrStore (clientIP remoteAddr) (.new now)
  let l := l.see id now
  let (allowed, l) := l.allow id now
  (.ofAllow allowed, l)

/-- The body of the loop in `IPRateLimiter.cleanup`, at one moment: every address that has
been idle for more than three minutes is taken out of the map. -/
def sweep (l : IPRateLimiter) (now : ℚ) : IPRateLimiter :=
  { l with
    ips := fun key => (l.ips key).filter fun id => !l.expired id now
    bound := fun ip id h => l.bound ip id (Option.filter_eq_some_iff.mp h).1
    distinct := fun ip ip' id h h' => l.distinct ip ip' id (Option.filter_eq_some_iff.mp h).1
      (Option.filter_eq_some_iff.mp h').1 }

end IPRateLimiter

/-- What the limiter sees, one at a time: a request from an address, or a pass of the sweep
over all of the map. -/
inductive LimiterEvent where
  | request (remoteAddr : String)
  | sweep
  deriving DecidableEq, Repr

/-- The requests of a run with their addresses: is each admitted? -/
def admissions (l : IPRateLimiter) : List (ℚ × LimiterEvent) → List (String × Bool)
  | [] => []
  | (now, .request remoteAddr) :: events =>
    (clientIP remoteAddr, (l.rateLimiter now remoteAddr).1 = .next) ::
      admissions (l.rateLimiter now remoteAddr).2 events
  | (now, .sweep) :: events => admissions (l.sweep now) events

/-! ## Buckets that are never deleted -/

/-- What the requests would be told if no entry were ever deleted: each address has one
bucket, full at first, and the sweep does nothing. -/
def neverDeleted (buckets : String → Bucket limit) :
    List (ℚ × LimiterEvent) → List (String × Bool)
  | [] => []
  | (now, .request remoteAddr) :: events =>
    let ip := clientIP remoteAddr
    (ip, ((buckets ip).allow now).1) ::
      neverDeleted (Function.update buckets ip ((buckets ip).allow now).2) events
  | (_, .sweep) :: events => neverDeleted buckets events

/-- The times at which an address asks. -/
def requestTimes (ip : String) (events : List (ℚ × LimiterEvent)) : List ℚ :=
  events.filterMap fun
    | (now, .request remoteAddr) => if clientIP remoteAddr = ip then some now else none
    | _ => none

/-- What an address is told depends on its own requests. The induction is on the events, for
any buckets, as each request changes the bucket of one address. -/
theorem neverDeleted_of_ip (buckets : String → Bucket limit) (events : List (ℚ × LimiterEvent))
    (ip : String) :
    ((neverDeleted buckets events).filter fun d => d.1 = ip).map Prod.snd =
      (buckets ip).decisions (requestTimes ip events) := by
  induction events generalizing buckets with
  | nil => rfl
  | cons event events ih =>
      obtain ⟨now, ⟨remoteAddr⟩ | _⟩ := event
      · by_cases hip : clientIP remoteAddr = ip
        · have htimes : requestTimes ip ((now, .request remoteAddr) :: events) =
              now :: requestTimes ip events := by simp [requestTimes, hip]
          rw [htimes, neverDeleted, List.filter_cons_of_pos (by simpa using hip), List.map_cons, ih,
            Bucket.decisions, ← hip, Function.update_self]
        · have htimes : requestTimes ip ((now, .request remoteAddr) :: events) =
              requestTimes ip events := by simp [requestTimes, hip]
          rw [htimes, neverDeleted, List.filter_cons_of_neg (by simpa using hip), ih,
            Function.update_of_ne (Ne.symm hip)]
      · exact ih buckets

/-! ## What each operation does -/

namespace IPRateLimiter

section

variable {l : IPRateLimiter} {ip : String} {e : IpStoreEntry}

/-- An address that has an entry gets it, and nothing changes. -/
theorem loadOrStore_of_some {id : ℕ} (h : l.ips ip = some id) : l.loadOrStore ip e = (id, l) := by
  unfold loadOrStore
  split
  · rename_i id' h'
    rw [h] at h'
    cases h'
    rfl
  · rename_i h'
    rw [h] at h'
    cases h'

/-- One that has none gets the new one. -/
theorem loadOrStore_of_none (h : l.ips ip = none) :
    (l.loadOrStore ip e).1 = l.fresh ∧
      (l.loadOrStore ip e).2.ips = Function.update l.ips ip (some l.fresh) ∧
      (l.loadOrStore ip e).2.entries = Function.update l.entries l.fresh e := by
  unfold loadOrStore
  split
  · rename_i id h'
    rw [h] at h'
    cases h'
  · exact ⟨rfl, rfl, rfl⟩

/-- Afterwards the map has the entry that the request goes on with. -/
theorem ips_loadOrStore (l : IPRateLimiter) (ip : String) (e : IpStoreEntry) :
    (l.loadOrStore ip e).2.ips ip = some (l.loadOrStore ip e).1 := by
  cases h : l.ips ip with
  | some id => rw [loadOrStore_of_some h, h]
  | none =>
      obtain ⟨hid, hips, -⟩ := loadOrStore_of_none (e := e) h
      rw [hid, hips, Function.update_self]

/-- Another address keeps its entry. -/
theorem loadOrStore_other {ip' : String} (hip : ip' ≠ ip) :
    (l.loadOrStore ip e).2.ips ip' = l.ips ip' := by
  cases h : l.ips ip with
  | some id => rw [loadOrStore_of_some h]
  | none => rw [(loadOrStore_of_none h).2.1, Function.update_of_ne hip]

/-- The entries made before stay as they are. -/
theorem entries_loadOrStore {id : ℕ} (hid : id < l.fresh) :
    (l.loadOrStore ip e).2.entries id = l.entries id := by
  cases h : l.ips ip with
  | some id => rw [loadOrStore_of_some h]
  | none => rw [(loadOrStore_of_none h).2.2, Function.update_of_ne hid.ne]

@[simp] theorem ips_modify (l : IPRateLimiter) (id : ℕ) (f : IpStoreEntry → IpStoreEntry) :
    (l.modify id f).ips = l.ips := rfl

@[simp] theorem entries_modify_self (l : IPRateLimiter) (id : ℕ) (f : IpStoreEntry → IpStoreEntry) :
    (l.modify id f).entries id = f (l.entries id) := Function.update_self ..

theorem entries_modify_other {id id' : ℕ} (h : id' ≠ id) (f : IpStoreEntry → IpStoreEntry) :
    (l.modify id f).entries id' = l.entries id' := Function.update_of_ne h ..

/-- Entries of two addresses are two entries. -/
theorem ne_of_ips {ip' : String} {id id' : ℕ} (h : l.ips ip = some id) (h' : l.ips ip' = some id')
    (hip : ip' ≠ ip) : id' ≠ id := by
  rintro rfl
  exact hip (l.distinct ip' ip _ h' h)

end

end IPRateLimiter

/-! ## The simulation -/

/-- At time `now`, an entry and a bucket that was never deleted will decide alike, and the
entry is full two seconds after it was last seen. -/
structure Stands (e : IpStoreEntry) (b : Bucket limit) (now : ℚ) : Prop where
  alike : e.limiter.AlikeFrom now b
  seen : e.lastSeen ≤ now
  idle : e.limiter.FullFrom (e.lastSeen + 2)

section

variable {e : IpStoreEntry} {b : Bucket limit} {now : ℚ}

/-- A new entry is as good as a full bucket. -/
theorem stands_new (hb : b.FullFrom now) : Stands (.new now) b now where
  alike := (Bucket.fullFrom_full 0).alike hb
  seen := le_rfl
  idle := Bucket.fullFrom_full 0

theorem Stands.wait (h : Stands e b now) {u : ℚ} (hu : now ≤ u) : Stands e b u where
  alike := h.alike.mono hu
  seen := h.seen.trans hu
  idle := h.idle

/-- A sighting says nothing about tokens, and puts off the sweep: the bucket that was full
in time is full later too. -/
theorem Stands.see (h : Stands e b now) : Stands { e with lastSeen := now } b now where
  alike := h.alike
  seen := le_rfl
  idle := h.idle.mono (by linarith [h.seen])

/-- A request that was seen just now, admitted or not, leaves a bucket that fills in two
seconds. -/
theorem Stands.allow (h : Stands e b now) (hseen : e.lastSeen = now) :
    Stands { e with limiter := (e.limiter.allow now).2 } (b.allow now).2 now where
  alike := h.alike.allow.2
  seen := h.seen
  idle := by
    have hfill : limit.burst / limit.rate = 2 := by norm_num [limit]
    have hfull := Bucket.FullFrom.allow (u := now) h.idle (by rw [hseen, hfill])
    rw [hfill] at hfull
    rwa [hseen]

/-- After three minutes the bucket is full, since two seconds are enough to fill it. So a
full one may take its place. -/
theorem Stands.full (h : Stands e b now) (hexpired : 180 < now - e.lastSeen) : b.FullFrom now := by
  intro u hu
  rw [← h.alike u hu]
  exact h.idle u (by linarith)

end

/-- Each entry stands for the bucket of its address; an address without one has a full
bucket. -/
structure Simulates (l : IPRateLimiter) (buckets : String → Bucket limit) (now : ℚ) : Prop where
  entry : ∀ ip id, l.ips ip = some id → Stands (l.entries id) (buckets ip) now
  gone : ∀ ip, l.ips ip = none → (buckets ip).FullFrom now

section

variable {l : IPRateLimiter} {buckets : String → Bucket limit} {now : ℚ}

theorem simulates_new (now : ℚ) : Simulates .new (fun _ => .full limit 0) now where
  entry _ _ h := by cases h
  gone _ _ := Bucket.fullFrom_full 0

theorem Simulates.wait (h : Simulates l buckets now) {u : ℚ} (hu : now ≤ u) :
    Simulates l buckets u where
  entry ip id hid := (h.entry ip id hid).wait hu
  gone ip hip := (h.gone ip hip).mono hu

theorem Simulates.loadOrStore (h : Simulates l buckets now) (ip : String) :
    Simulates (l.loadOrStore ip (.new now)).2 buckets now := by
  cases hip : l.ips ip with
  | some id =>
      rw [IPRateLimiter.loadOrStore_of_some hip]
      exact h
  | none =>
      obtain ⟨-, hips, hentries⟩ := IPRateLimiter.loadOrStore_of_none (e := .new now) hip
      refine ⟨fun ip' id hid => ?_, fun ip' hnone => ?_⟩
      · by_cases hsame : ip' = ip
        · rw [hsame, hips, Function.update_self, Option.some.injEq] at hid
          rw [hentries, ← hid, Function.update_self, hsame]
          exact stands_new (h.gone ip hip)
        · rw [IPRateLimiter.loadOrStore_other hsame] at hid
          rw [IPRateLimiter.entries_loadOrStore (l.bound ip' id hid)]
          exact h.entry ip' id hid
      · by_cases hsame : ip' = ip
        · rw [hsame, hips, Function.update_self] at hnone
          cases hnone
        · rw [IPRateLimiter.loadOrStore_other hsame] at hnone
          exact h.gone ip' hnone

/-- A write to the entry of an address, where the bucket of that address moves with it. -/
theorem Simulates.modify (h : Simulates l buckets now) {ip : String} {id : ℕ}
    (hid : l.ips ip = some id) {f : IpStoreEntry → IpStoreEntry} {b : Bucket limit}
    (hf : Stands (f (l.entries id)) b now) :
    Simulates (l.modify id f) (Function.update buckets ip b) now := by
  refine ⟨fun ip' id' hid' => ?_, fun ip' hnone => ?_⟩
  · by_cases hsame : ip' = ip
    · rw [IPRateLimiter.ips_modify, hsame, hid, Option.some.injEq] at hid'
      rw [hsame, ← hid', IPRateLimiter.entries_modify_self, Function.update_self]
      exact hf
    · rw [IPRateLimiter.entries_modify_other (IPRateLimiter.ne_of_ips hid hid' hsame),
        Function.update_of_ne hsame]
      exact h.entry ip' id' hid'
  · have hother : ip' ≠ ip := by
      rintro rfl
      rw [IPRateLimiter.ips_modify, hid] at hnone
      cases hnone
    rw [Function.update_of_ne hother]
    exact h.gone ip' hnone

/-- A request is decided as by the bucket of its address. -/
theorem Simulates.request (h : Simulates l buckets now) (remoteAddr : String) :
    ((l.rateLimiter now remoteAddr).1 = .next ↔
        ((buckets (clientIP remoteAddr)).allow now).1 = true) ∧
      Simulates (l.rateLimiter now remoteAddr).2
        (Function.update buckets (clientIP remoteAddr)
          ((buckets (clientIP remoteAddr)).allow now).2) now := by
  have hstored := h.loadOrStore (clientIP remoteAddr)
  have hid := IPRateLimiter.ips_loadOrStore l (clientIP remoteAddr) (.new now)
  have hstands := (hstored.entry _ _ hid).see
  have hseen := hstored.modify (f := fun e => { e with lastSeen := now }) hid hstands
  rw [Function.update_eq_self] at hseen
  refine ⟨?_, ?_⟩
  · rw [IPRateLimiter.rateLimiter, passage_next_iff, IPRateLimiter.allow, IPRateLimiter.see,
      IPRateLimiter.entries_modify_self, hstands.alike.allow.1]
  · refine hseen.modify (f := fun e => { e with limiter := (e.limiter.allow now).2 }) hid ?_
    rw [IPRateLimiter.entries_modify_self]
    exact hstands.allow rfl

/-- An entry that a sweep deletes stood for a full bucket. -/
theorem Simulates.sweep (h : Simulates l buckets now) : Simulates (l.sweep now) buckets now := by
  refine ⟨fun ip id hid => ?_, fun ip hnone => ?_⟩
  · exact h.entry ip id (Option.filter_eq_some_iff.mp hid).1
  · cases hip : l.ips ip with
    | none => exact h.gone ip hip
    | some id =>
        have hexpired : l.expired id now = true := by
          simpa [IPRateLimiter.sweep, hip] using hnone
        exact (h.entry ip id hip).full (by simpa [IPRateLimiter.expired] using hexpired)

/-- The simulation, along a run: at each event both sides decide alike and are related
again, the sweep having changed one side only. -/
theorem Simulates.run (h : Simulates l buckets now) {events : List (ℚ × LimiterEvent)}
    (hnow : ∀ event ∈ events, now ≤ event.1) (hsorted : events.Pairwise fun a b => a.1 ≤ b.1) :
    admissions l events = neverDeleted buckets events := by
  induction events generalizing l buckets now with
  | nil => rfl
  | cons event events ih =>
      obtain ⟨hfirst, hrest⟩ := List.pairwise_cons.mp hsorted
      obtain ⟨u, ⟨remoteAddr⟩ | _⟩ := event
      · obtain ⟨hdecision, hnext⟩ :=
          (h.wait (hnow _ List.mem_cons_self)).request remoteAddr
        rw [admissions, neverDeleted, ih hnext hfirst hrest]
        have hsame : decide ((l.rateLimiter u remoteAddr).1 = .next) =
            ((buckets (clientIP remoteAddr)).allow u).1 := by
          rw [Bool.eq_iff_iff, decide_eq_true_iff]
          exact hdecision
        rw [hsame]
      · rw [admissions, neverDeleted]
        exact ih (h.wait (hnow _ List.mem_cons_self)).sweep hfirst hrest

end

/-- **Evicting idle buckets is invisible**: in every run in order of time, exactly the
requests are admitted that one bucket for each address would admit. So what an address is
told is decided by its own requests, and not by others or by the sweeps. -/
theorem eviction_invisible {events : List (ℚ × LimiterEvent)}
    (hsorted : events.Pairwise fun a b => a.1 ≤ b.1) :
    admissions .new events = neverDeleted (fun _ => .full limit 0) events ∧
      ∀ ip, ((admissions .new events).filter fun d => d.1 = ip).map Prod.snd =
        (Bucket.full limit 0).decisions (requestTimes ip events) := by
  have hrun : admissions .new events = neverDeleted (fun _ => .full limit 0) events := by
    cases events with
    | nil => rfl
    | cons event events =>
        refine (simulates_new event.1).run ?_ hsorted
        intro event' hmem
        rcases List.mem_cons.mp hmem with rfl | hmem
        · exact le_rfl
        · exact (List.pairwise_cons.mp hsorted).1 event' hmem
  refine ⟨hrun, fun ip => ?_⟩
  rw [hrun, neverDeleted_of_ip]

/-- One request too many in a burst, a sweep, and a request after it. -/
def burstAndSweep : List (ℚ × LimiterEvent) :=
  List.replicate 21 (0, .request "10.0.0.1:5000") ++
    [(1, .request "10.0.0.2:5000"), (200, .sweep), (200, .request "10.0.0.1:5001")]

/-- The twenty-first is refused, and the one after the sweep is admitted, as without it. -/
theorem eviction_invisible_example :
    admissions .new burstAndSweep = neverDeleted (fun _ => .full limit 0) burstAndSweep ∧
      admissions .new burstAndSweep =
        List.replicate 20 ("10.0.0.1", true) ++
          [("10.0.0.1", false), ("10.0.0.2", true), ("10.0.0.1", true)] :=
  ⟨(eviction_invisible (by decide +kernel)).1, by decide +kernel⟩

end EngineeringLab.Shortener
