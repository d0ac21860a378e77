/-
The server of `main.go`: `Logger` around the rate limiter around the mux around the handlers.

A request is a program from the counting of `Logger` to its log entry. Whatever it does besides
writing to its client is a call: on the clock, the limiter, the counters, the tracker, the
analytics table, or on what the store stands on. Other requests come in between any two calls, and
so do the backfills of the store and the moves of the cleanup, the analytics worker and the clock.

The store is any that has the two methods, given as programs over calls of its own (`Backing`).
Requests have clean paths; the mux redirects any other path before it looks for a handler.

The handlers were modelled one at a time, each over calls of its own; here they are put
together. `interpret` maps the calls of each to those of the server, so that a handler's
program is still the one that was proved about, and its lemmas apply through that map. A
panic of a handler ends its request and not the server, as `net/http` recovers it, and the
log line of such a request is missing.
-/
import EngineeringLab.Concurrency.Emits
import EngineeringLab.Shortener.Encoding
import EngineeringLab.Shortener.Location
import EngineeringLab.Shortener.Logging
import EngineeringLab.Shortener.RateLimit

set_option autoImplicit false

open Concurrency Web

namespace EngineeringLab.Shortener

/-! ## Requests -/

/-- What the handlers read of an `http.Request`. -/
structure ServerRequest where
  method : String
  path : String
  remoteAddr : String
  body : String
  deriving DecidableEq, Repr

/-- What the mux reads of it. -/
def ServerRequest.mux (r : ServerRequest) : MuxRequest := ⟨r.method, r.path⟩

/-- The host of `net.SplitHostPort(r.RemoteAddr)`, its error being ignored. -/
def ServerRequest.host (r : ServerRequest) : String :=
  match splitHostPort r.remoteAddr.toList with
  | some (host, _) => String.ofList host
  | none => ""

/-- A path that `cleanPath` leaves as it is: no segment is a dot or two, and none but the
last is empty. `net/http` answers any other path by a redirect of its own, before a handler
is chosen. -/
def CleanPath (path : String) : Prop :=
  ∃ segments ∈ pathSegments path, "." ∉ segments ∧ ".." ∉ segments ∧ "" ∉ segments.dropLast

instance (path : String) : Decidable (CleanPath path) :=
  inferInstanceAs (Decidable (∃ segments ∈ pathSegments path, _))

/-! ## Calls -/

/-- The fields of `handler.Metrics`. The last two are counted by the cache, and the handlers
only read them. -/
inductive Counter where
  | totalRequests
  | totalShortened
  | totalRedirects
  | cacheHits
  | cacheMisses
  deriving DecidableEq, Repr

/-- Everything that is called behind `Logger`: the headers, the clock and the map of the
limiter, the generator, the tracker, the tables, the counters and the store. The calls of
the store are a parameter, so the server is the same in front of any. -/
inductive AppCall (SC : Type) where
  | setHeader (key value : String)
  | limiterNow
  | loadOrStore (ip : String) (now : ℚ)
  | see (id : ℕ) (now : ℚ)
  | allow (id : ℕ)
  | generateShortKey
  | timeNow
  | send (event : ClickEvent)
  | analyticsLookup (code : String)
  | totalShortenedAdd
  | totalRedirectsAdd
  | load (counter : Counter)
  | store (c : SC)

abbrev AppAnswer {SC : Type} (SR : SC → Type) : AppCall SC → Type
  | .setHeader .. => Unit
  | .limiterNow => ℚ
  | .loadOrStore .. => ℕ
  | .see .. => Unit
  | .allow _ => Bool
  | .generateShortKey => Except String String
  | .timeNow => Time
  | .send _ => Except Panic Unit
  | .analyticsLookup _ => Except String ℕ
  | .totalShortenedAdd => Unit
  | .totalRedirectsAdd => Unit
  | .load _ => ℕ
  | .store c => SR c

/-- The panic of a handler, or that of `WriteHeader`. -/
inductive ServerPanic where
  | handler (p : Panic)
  | invalidWriteHeaderCode (code : ℕ)
  deriving DecidableEq, Repr

section

variable {SC : Type} {SR : SC → Type}

/-- A handler at work: it writes a response, makes the calls of `AppCall`, and may panic. -/
abbrev Handling (SR : SC → Type) (α : Type) : Type :=
  Prog (Web.HandlerCall (AppCall SC)) (Web.HandlerAnswer (AppAnswer SR)) ServerPanic α

namespace Handling

def call (c : AppCall SC) : Handling SR (AppAnswer SR c) := Prog.call (.other c) .ret

def setHeader (key value : String) : Handling SR Unit := call (.setHeader key value)

/-- `w.Write`. -/
def write (text : String) : Handling SR Unit := Prog.call (.writer (.write text)) .ret

/-- `w.WriteHeader`. Informational codes and those from 600 on, which `net/http` would pass, are
never written. -/
def writeHeader (code : ℕ) : Handling SR Unit :=
  if h : 200 ≤ code ∧ code ≤ 599 then Prog.call (.writer (.writeHeader code h)) .ret
  else .throw (.invalidWriteHeaderCode code)

/-! ## Answers -/

/-- `http.Error`. -/
def httpError (error : String) (code : ℕ) : Handling SR Unit := do
  setHeader "Content-Type" "text/plain; charset=utf-8"
  setHeader "X-Content-Type-Options" "nosniff"
  writeHeader code
  write (error ++ "\n")

/-- `htmlReplacer`. -/
def htmlEscape (c : Char) : List Char :=
  match c with
  | '&' => "&amp;".toList
  | '<' => "&lt;".toList
  | '>' => "&gt;".toList
  | '"' => "&#34;".toList
  | '\'' => "&#39;".toList
  | c => [c]

/-- The body of a redirect. -/
def foundBody (requestPath target : String) : String :=
  let url := if (Reference.parse target.toList).scheme.isSome ∨ target.toList.head? = some '/' then
    target.toList else pathDir requestPath.toList ++ target.toList
  "<a href=\"" ++ String.ofList (url.flatMap htmlEscape) ++ "\">Found</a>.\n\n"

/-- `http.Redirect`, at the one code it is given. -/
def redirect (r : ServerRequest) (url : String) (code : ℕ) : Handling SR Unit := do
  setHeader "Location" (redirectLocation r.path url)
  if r.method = "GET" ∨ r.method = "HEAD" then
    setHeader "Content-Type" "text/html; charset=utf-8"
  writeHeader code
  if r.method = "GET" then
    write (foundBody r.path url)

/-- The headers, the status if it is given, and the body of an answer in JSON. -/
def json (code : Option ℕ) (body : String) : Handling SR Unit := do
  setHeader "Content-Type" "application/json"
  match code with
  | some code => writeHeader code
  | none => pure ()
  write body

/-- `json.NewEncoder(w).Encode` at a map, whose keys it sorts. -/
def encodeCounts (counts : List (String × ℕ)) : String :=
  "\x7b" ++ String.intercalate "," (counts.map fun c => "\"" ++ c.1 ++ "\":" ++ toString c.2) ++
    "\x7d\n"

end Handling

open Handling

/-! ## The handlers -/

/-- The two methods of `handler.Store`, as programs over the calls of whatever store is
behind the interface. -/
structure StoreMethods (SR : SC → Type) where
  lookup : String → Prog SC SR Empty (Option LookupResult × Option StoreError)
  save : String → String → Option Time → Prog SC SR Empty (Option StoreError)

/-- `handler.App`; the counters and the tables are behind the calls. -/
structure Application (SR : SC → Type) where
  store : StoreMethods SR
  tracker : Interface TrackerPointer
  analyticsStore : Interface Unit

/-- A method of the store, as the handlers call it. -/
def onStore {α : Type} (p : Prog SC SR Empty α) : Handling SR α :=
  (p.mapThrow Empty.elim).interpret fun c => call (.store c)

/-- `HealthHandler`. -/
def HealthHandler : Handling SR Unit := json (some 200) "\x7b\"status\": \"ok\"\x7d"

namespace Application

variable (app : Application SR)

/-- The calls of `App.shorten`. -/
def onShorten : (c : HandlerCall) → Handling SR (HandlerAnswer c)
  | .generateShortKey => call .generateShortKey
  | .lookup code => do
    let (val, err) ← onStore (app.store.lookup code)
    return match err with
      | some err => .error err
      | none => .ok val
  | .save code url expiresAt => onStore (app.store.save code url expiresAt)
  | .totalShortenedAdd => call .totalShortenedAdd

/-- `json.NewEncoder(w).Encode(resp)`. -/
def shortResponse (shortURL : String) : String :=
  String.ofList (Json.Value.object
    [(Json.quote "short_url".toList, .string (Json.quote shortURL.toList))]).text ++ "\n"

/-- `App.Shorten`. -/
def Shorten (r : ServerRequest) : Handling SR Unit := do
  let response ← ((App.shorten (decodeRequest r.body)).mapThrow Empty.elim).interpret app.onShorten
  match response with
  | .httpError error code => httpError error code
  | .created shortURL => json (some 201) (shortResponse shortURL)

/-- The calls of `App.redirectHandler`. -/
def onRedirect : (c : RedirectCall) → Handling SR (RedirectAnswer c)
  | .lookup code => onStore (app.store.lookup code)
  | .totalRedirectsAdd => call .totalRedirectsAdd
  | .timeNow => call .timeNow
  | .send event => call (.send event)

/-- `r.PathValue("code")`. -/
def pathValue (values : List (String × String)) : String := (values.lookup "code").getD ""

/-- `App.RedirectHandler`. -/
def RedirectHandler (values : List (String × String)) (r : ServerRequest) : Handling SR Unit := do
  let response ← ((App.redirectHandler app.tracker (pathValue values) r.host).mapThrow
    .handler).interpret app.onRedirect
  match response with
  | .httpError error code => httpError error code
  | .redirect url code => redirect r url code

/-- `App.MetricsHandler`. -/
def MetricsHandler : Handling SR Unit := do
  setHeader "Content-Type" "application/json"
  let totalRequests ← call (.load .totalRequests)
  let totalShortened ← call (.load .totalShortened)
  let totalRedirects ← call (.load .totalRedirects)
  let cacheHits ← call (.load .cacheHits)
  let cacheMisses ← call (.load .cacheMisses)
  write (encodeCounts [("cache_hits", cacheHits), ("cache_misses", cacheMisses),
    ("total_redirects", totalRedirects), ("total_requests", totalRequests),
    ("total_shortened", totalShortened)])

/-- `App.StatsHandler`. -/
def StatsHandler (values : List (String × String)) : Handling SR Unit := do
  if pathValue values = "" then
    httpError "code missing" 400
  else if app.analyticsStore ≠ .nil then
    match ← call (.analyticsLookup (pathValue values)) with
    | .error _ => httpError "Internal server error" 500
    | .ok totalClicks => json none (encodeCounts [("total_clicks", totalClicks)])
  else
    httpError "analytics not defined" 400

end Application

/-! ## The middleware -/

/-- `IPWhitelist`. -/
def IPWhitelist (next : Handling SR Unit) (allowedIPs : List String) (r : ServerRequest) :
    Handling SR Unit :=
  if r.host ∈ allowedIPs then next else httpError "Forbidden" 403

/-- `IPRateLimiter.RateLimiter`, call by call: the map is asked for the limiter of the
address, the reading of the clock is noted, and the bucket decides. What is refused never
reaches the next handler. -/
def RateLimiter (next : Handling SR Unit) (r : ServerRequest) : Handling SR Unit := do
  let now ← call .limiterNow
  let id ← call (.loadOrStore (clientIP r.remoteAddr) now)
  let now ← call .limiterNow
  call (.see id now)
  let allowed ← call (.allow id)
  match Passage.ofAllow allowed with
  | .error text code => httpError text code
  | .next => next

/-- The handler that a route stands for. -/
def Route.serve (app : Application SR) (values : List (String × String)) (r : ServerRequest) :
    Route → Handling SR Unit
  | .healthHandler => HealthHandler
  | .shorten => app.Shorten r
  | .redirectHandler => app.RedirectHandler values r
  | .statsHandler => app.StatsHandler values
  | .metricsHandler => Application.MetricsHandler
  | .ipWhitelist next allowedIPs => IPWhitelist (next.serve app values r) allowedIPs r

/-- `main` registers without a panic. -/
theorem mainMux_isSome : mainMux.isSome = true := by
  rw [← Option.isSome_map (f := fun m : ServeMux Route => m.entries), mainMux_entries]
  rfl

/-- The methods by which a path can be asked for. -/
def allowedMethods (path : String) : List String :=
  let methods := (mainMux.get mainMux_isSome).entries.filterMap fun e =>
    if ((pathSegments path).bind (bindSegments e.1.segments)).isSome then e.1.method else none
  (if "GET" ∈ methods then "HEAD" :: methods else methods).dedup.mergeSort

/-- `mux.ServeHTTP`. -/
def serveMux (app : Application SR) (r : ServerRequest) : Handling SR Unit :=
  match (mainMux.get mainMux_isSome).handler r.mux with
  | some (route, values) => route.serve app values r
  | none =>
    if allowedMethods r.path = [] then httpError "404 page not found" 404
    else do
      setHeader "Allow" (String.intercalate ", " (allowedMethods r.path))
      httpError "Method Not Allowed" 405

/-- The handler of the server, at one request: the mux behind the limiter, behind the
logger. The three are nested as `main` nests them. -/
def wrappedMux (app : Application SR) (r : ServerRequest) :
    Prog (LoggerCall (AppCall SC)) (LoggerAnswer (AppAnswer SR)) ServerPanic ResponseWriter :=
  Logger (fun _ => RateLimiter (serveMux app r) r) .new r.mux

end

/-! ## The server -/

/-- The store and what it stands on: the calls of its methods, what they do, and the jobs that
they leave behind. -/
structure Backing (SS SQ SC : Type) (SR : SC → Type) (SA : Type)
    extends System SS SQ SC SR Empty SA where
  methods : StoreMethods SR
  cacheHits : SS → ℕ
  cacheMisses : SS → ℕ

/-- What the requests share: the counters, the lines of the log, the map of the limiter with
its clock, the channel of the tracker, and the state of the store. -/
structure ServerState (SS : Type) where
  totalRequests : ℕ
  totalShortened : ℕ
  totalRedirects : ℕ
  log : List RequestEntry
  limiter : IPRateLimiter
  now : ℚ
  analyticsChan : Chan ClickEvent
  store : SS

/-- A server that has just been started. -/
def ServerState.start {SS : Type} (store : SS) (analyticsChan : Chan ClickEvent) : ServerState SS :=
  ⟨0, 0, 0, [], .new, 0, analyticsChan, store⟩

section

variable {SS SQ SC SA : Type} {SR : SC → Type}

def Backing.load (backing : Backing SS SQ SC SR SA) (st : ServerState SS) : Counter → ℕ
  | .totalRequests => st.totalRequests
  | .totalShortened => st.totalShortened
  | .totalRedirects => st.totalRedirects
  | .cacheHits => backing.cacheHits st.store
  | .cacheMisses => backing.cacheMisses st.store

/-- What a call behind `Logger` may answer and do. The analytics table may answer anything, and
the worker may be waiting for an event or not. -/
inductive Backing.ExecApp (backing : Backing SS SQ SC SR SA) :
    ServerState SS → (c : AppCall SC) → AppAnswer SR c → ServerState SS → Prop
  | setHeader {st : ServerState SS} {key value : String} :
      ExecApp backing st (.setHeader key value) () st
  | limiterNow {st : ServerState SS} : ExecApp backing st .limiterNow st.now st
  | loadOrStore {st : ServerState SS} {ip : String} {now : ℚ} :
      ExecApp backing st (.loadOrStore ip now) (st.limiter.loadOrStore ip (.new now)).1
        { st with limiter := (st.limiter.loadOrStore ip (.new now)).2 }
  | see {st : ServerState SS} {id : ℕ} {now : ℚ} :
      ExecApp backing st (.see id now) () { st with limiter := st.limiter.see id now }
  | allow {st : ServerState SS} {id : ℕ} :
      ExecApp backing st (.allow id) (st.limiter.allow id st.now).1
        { st with limiter := (st.limiter.allow id st.now).2 }
  | generateShortKey {st : ServerState SS} (randInt : ℕ → Except String (Fin 62)) :
      ExecApp backing st .generateShortKey (Shortcode.generateShortKey randInt) st
  | timeNow {st : ServerState SS} (now : Time) : ExecApp backing st .timeNow now st
  | send {st : ServerState SS} {event : ClickEvent} (receiver : Bool) :
      ExecApp backing st (.send event)
        (Wiring.sendAnswer (st.analyticsChan.trySend receiver event))
        { st with analyticsChan :=
          Wiring.sendChan st.analyticsChan (st.analyticsChan.trySend receiver event) }
  | analyticsLookup {st : ServerState SS} {code : String} (r : Except String ℕ) :
      ExecApp backing st (.analyticsLookup code) r st
  | totalShortenedAdd {st : ServerState SS} :
      ExecApp backing st .totalShortenedAdd () { st with totalShortened := st.totalShortened + 1 }
  | totalRedirectsAdd {st : ServerState SS} :
      ExecApp backing st .totalRedirectsAdd () { st with totalRedirects := st.totalRedirects + 1 }
  | load {st : ServerState SS} {counter : Counter} :
      ExecApp backing st (.load counter) (backing.load st counter) st
  | store {st : ServerState SS} {s : SS} {c : SC} {r : SR c} (h : backing.exec st.store c r s) :
      ExecApp backing st (.store c) r { st with store := s }

/-- The calls of `Logger`, and those behind it. -/
inductive Backing.Exec (backing : Backing SS SQ SC SR SA) :
    ServerState SS → (c : LoggerCall (AppCall SC)) → LoggerAnswer (AppAnswer SR) c →
      ServerState SS → Prop
  | incTotalRequests {st : ServerState SS} :
      Exec backing st .incTotalRequests () { st with totalRequests := st.totalRequests + 1 }
  | timeNow {st : ServerState SS} (now : ℤ) : Exec backing st .timeNow now st
  | slogInfo {st : ServerState SS} {entry : RequestEntry} :
      Exec backing st (.slogInfo entry) () { st with log := st.log ++ [entry] }
  | downstream {st st' : ServerState SS} {c : AppCall SC} {r : AppAnswer SR c}
      (h : backing.ExecApp st c r st') : Exec backing st (.downstream c) r st'

/-- What happens by itself: time passes, `cleanup` deletes entries, the worker takes an event,
`main` has the channel closed, and the store moves as it does. -/
inductive Backing.Drift (backing : Backing SS SQ SC SR SA) :
    ServerState SS → ServerState SS → Prop
  | wait {st : ServerState SS} {now : ℚ} (h : st.now ≤ now) : Drift backing st { st with now }
  | delete {st : ServerState SS} {key : String} :
      Drift backing st { st with limiter := st.limiter.delete key }
  | receive {st : ServerState SS} {event : ClickEvent} {ch : Chan ClickEvent}
      (h : st.analyticsChan.recv = .item event ch) :
      Drift backing st { st with analyticsChan := ch }
  | close {st : ServerState SS} {ch : Chan ClickEvent} (h : st.analyticsChan.close = some ch) :
      Drift backing st { st with analyticsChan := ch }
  | store {st : ServerState SS} {s : SS} (h : backing.drift st.store s) :
      Drift backing st { st with store := s }

/-- A request, or a job of the store. -/
inductive ServerTask (SQ : Type) where
  | request (r : ServerRequest)
  | job (q : SQ)
  deriving DecidableEq

/-- A job, as the server runs it. -/
def Backing.runJob (backing : Backing SS SQ SC SR SA) (q : SQ) :
    Prog (LoggerCall (AppCall SC)) (LoggerAnswer (AppAnswer SR)) ServerPanic SA :=
  ((backing.body q).mapThrow Empty.elim).interpret fun c => .call (.downstream (.store c)) .ret

/-- The server with any number of requests, as long as `admits` lets them come. A request ends
with what its client got. -/
def Backing.server (backing : Backing SS SQ SC SR SA) (tracker : Interface TrackerPointer)
    (analyticsStore : Interface Unit) (admits : ServerRequest → Prop) :
    System (ServerState SS) (ServerTask SQ) (LoggerCall (AppCall SC))
      (LoggerAnswer (AppAnswer SR)) ServerPanic (Option ResponseWriter) where
  body
    | .request r => wrappedMux ⟨backing.methods, tracker, analyticsStore⟩ r >>= fun w =>
        .ret (some w)
    | .job q => backing.runJob q >>= fun _ => .ret none
  admits
    | .request r => CleanPath r.path ∧ admits r
    | .job _ => False
  exec := backing.Exec
  drift := backing.Drift
  spawn
    | .downstream (.store c) => (backing.spawn c).map .job
    | _ => []

/-! ### A server on which nothing fails -/

/-- `CachedStore` behind the handlers, its backfills being the jobs. This is the store of
production. -/
def CachedStore.backing (cs : CachedStore) : Backing Env Request Call Answer Reply where
  toSystem := cs.system fun _ => False
  methods := ⟨cs.lookup, cs.save⟩
  cacheHits := Env.cacheHits
  cacheMisses := Env.cacheMisses

/-- Each call when the store answers as `f` does, clocks stand at their start, and the generator
draws the first character. -/
def Backing.answer (backing : Backing SS SQ SC SR SA) (f : SS → (c : SC) → SR c × SS)
    (st : ServerState SS) :
    (c : LoggerCall (AppCall SC)) → LoggerAnswer (AppAnswer SR) c × ServerState SS
  | .incTotalRequests => ((), { st with totalRequests := st.totalRequests + 1 })
  | .timeNow => ((0 : ℤ), st)
  | .slogInfo entry => ((), { st with log := st.log ++ [entry] })
  | .downstream c => match c with
    | .setHeader .. => ((), st)
    | .limiterNow => (st.now, st)
    | .loadOrStore ip now => ((st.limiter.loadOrStore ip (.new now)).1,
        { st with limiter := (st.limiter.loadOrStore ip (.new now)).2 })
    | .see id now => ((), { st with limiter := st.limiter.see id now })
    | .allow id => ((st.limiter.allow id st.now).1,
        { st with limiter := (st.limiter.allow id st.now).2 })
    | .generateShortKey => (Shortcode.generateShortKey fun _ => .ok ⟨0, by decide⟩, st)
    | .timeNow => (Time.zero, st)
    | .send event => (Wiring.sendAnswer (st.analyticsChan.trySend false event),
        { st with analyticsChan :=
          Wiring.sendChan st.analyticsChan (st.analyticsChan.trySend false event) })
    | .analyticsLookup _ => ((.ok 0 : Except String ℕ), st)
    | .totalShortenedAdd => ((), { st with totalShortened := st.totalShortened + 1 })
    | .totalRedirectsAdd => ((), { st with totalRedirects := st.totalRedirects + 1 })
    | .load counter => (backing.load st counter, st)
    | .store c => ((f st.store c).1, { st with store := (f st.store c).2 })

theorem Backing.exec_answer (backing : Backing SS SQ SC SR SA) {f : SS → (c : SC) → SR c × SS}
    (hf : ∀ s c, backing.exec s c (f s c).1 (f s c).2) (st : ServerState SS)
    (c : LoggerCall (AppCall SC)) :
    backing.Exec st c (backing.answer f st c).1 (backing.answer f st c).2 := by
  cases c with
  | incTotalRequests => exact .incTotalRequests
  | timeNow => exact .timeNow 0
  | slogInfo entry => exact .slogInfo
  | downstream c =>
      apply Backing.Exec.downstream
      cases c with
      | setHeader key value => exact .setHeader
      | limiterNow => exact .limiterNow
      | loadOrStore ip now => exact .loadOrStore
      | see id now => exact .see
      | allow id => exact .allow
      | generateShortKey => exact .generateShortKey _
      | timeNow => exact .timeNow _
      | send event => exact .send false
      | analyticsLookup code => exact .analyticsLookup _
      | totalShortenedAdd => exact .totalShortenedAdd
      | totalRedirectsAdd => exact .totalRedirectsAdd
      | load counter => exact .load
      | store c => exact .store (hf _ _)

end

end EngineeringLab.Shortener
