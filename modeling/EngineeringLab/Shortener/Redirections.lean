/-
Where the server redirects to.

In production, in every interleaving of requests, with failures of Redis and Postgres, lost
entries and late backfills, a `Location` is that of the URL in the row of the code in the path,
every row but those that were there before is as a `POST /shorten` has asked for it, and every
event that waits for the analytics worker is of a redirect of its code (`redirected_as_posted`).
The store is a component of the server, and what its contract says of lookups and saves
(`linksKept`) is lifted to the requests that make them.

A redirect is the end of a chain: somebody asked for a URL to be shortened, the row was
inserted under a code, a lookup found it or a cache entry that was made from it, and
`http.Redirect` was given what the lookup returned. Each link of the chain is another
request's step, some time earlier, and failures may occur at any of them. The log of all
calls is what connects them: from a `Location` back to a lookup, from the row to the insert,
and from the insert to the request that made it.

The worker's side is the same log read forwards: an event that waits was offered by the
handler of a request with that code.
-/
import EngineeringLab.Concurrency.Component
import EngineeringLab.Shortener.Accounts
import EngineeringLab.Shortener.CacheLinks

set_option autoImplicit false

open Concurrency Web

namespace EngineeringLab.Shortener

/-! ## Paths and routes -/

/-- A path of one segment. -/
theorem path_of_pathSegments {path s : String} (h : pathSegments path = some [s]) :
    path = "/" ++ s := by
  unfold pathSegments at h
  split at h
  · next rest hpath =>
    obtain ⟨segment, hsplit, rfl⟩ := List.map_eq_singleton_iff.mp (Option.some.inj h)
    have hrest : rest = segment := by
      have hjoin : ['/'].intercalate (rest.splitOn '/') = rest := List.intercalate_splitOn '/'
      rw [← hjoin, hsplit]
      simp
    apply String.toList_injective
    rw [hpath, hrest]
    simp
  · cases h

/-- What `main` has registered for a request. -/
theorem entry_of_handler {r : MuxRequest} {route : Route} {values : List (String × String)}
    (h : (mainMux.get mainMux_isSome).handler r = some (route, values)) :
    ∃ p, (p, route) ∈ mainEntries ∧ p.bind r = some values := by
  obtain ⟨p, hp, hbind, -⟩ := ServeMux.handler_eq_some_iff.mp h
  refine ⟨p, ?_, hbind⟩
  have hentries := mainMux_entries
  rw [← Option.some_get mainMux_isSome, Option.map_some, Option.some.injEq] at hentries
  rwa [hentries] at hp

/-- A pattern of one segment matches paths of one segment. -/
theorem bind_one_segment {method : String} {seg : Segment} {r : MuxRequest}
    {values : List (String × String)} (h : Pattern.bind ⟨some method, [seg]⟩ r = some values) :
    methodMatches (some method) r.method = true ∧
      ∃ s, r.path = "/" ++ s ∧ bindSegments [seg] [s] = some values := by
  unfold Pattern.bind at h
  split at h
  · next hmethod =>
    obtain ⟨ss, hss, hbind⟩ := Option.bind_eq_some_iff.mp h
    rcases ss with _ | ⟨s, _ | ⟨s', ss⟩⟩
    · cases seg <;> cases hbind
    · exact ⟨hmethod, s, path_of_pathSegments hss, hbind⟩
    · cases seg <;> simp [bindSegments] at hbind
  · cases h

/-- Only a `POST /shorten` gets to `Shorten`. -/
theorem shorten_route {r : MuxRequest} {values : List (String × String)}
    (h : (mainMux.get mainMux_isSome).handler r = some (.shorten, values)) :
    r.method = "POST" ∧ r.path = "/shorten" := by
  obtain ⟨p, hp, hbind⟩ := entry_of_handler h
  simp only [mainEntries, List.mem_cons, Prod.mk.injEq, reduceCtorEq, and_false, and_true,
    List.not_mem_nil, or_false, false_or] at hp
  subst hp
  obtain ⟨hmethod, s, hpath, hs⟩ := bind_one_segment hbind
  have hpost : "POST" = r.method := by simpa [methodMatches] using hmethod
  have hshorten : "shorten" = s := by
    by_contra hne
    rw [bindSegments, if_neg hne] at hs
    cases hs
  rw [hpath, ← hshorten]
  exact ⟨hpost.symm, rfl⟩

/-- The code of a redirect is the path. -/
theorem redirect_route {r : MuxRequest} {values : List (String × String)}
    (h : (mainMux.get mainMux_isSome).handler r = some (.redirectHandler, values)) :
    r.path = "/" ++ Application.pathValue values := by
  obtain ⟨p, hp, hbind⟩ := entry_of_handler h
  simp only [mainEntries, List.mem_cons, Prod.mk.injEq, reduceCtorEq, and_false, and_true,
    List.not_mem_nil, or_false, false_or] at hp
  subst hp
  obtain ⟨-, s, hpath, hs⟩ := bind_one_segment hbind
  rw [bindSegments] at hs
  split at hs
  · cases hs
  · rw [bindSegments, Option.map_some, Option.some.injEq] at hs
    rw [hpath, ← hs]
    rfl

/-! ## The contract -/

/-- `v` is where a redirect of `r` goes, by the row of its code. The row is that of the
moment `e`, and the reference is resolved against the path of the request. -/
def Located (r : ServerRequest) (e : Env) (v : String) : Prop :=
  ∃ code row, r.path = "/" ++ code ∧ e.urls code = some row ∧ v = redirectLocation r.path row.1

/-- The event is of a redirect of `r`: it has the code in the path and the address of the
client, and the code has a row. -/
def Clicked (r : ServerRequest) (e : Env) (event : ClickEvent) : Prop :=
  r.path = "/" ++ event.code ∧ event.ip = r.host ∧ ∃ row, e.urls event.code = some row

/-- `r` has asked for a row: it is a `POST /shorten` whose body decodes, and the row has the
link and the expiry of that body. -/
def Posted (r : ServerRequest) (url : String) (x : NullTime) : Prop :=
  r.method = "POST" ∧ r.path = "/shorten" ∧
    ∃ req, decodeRequest r.body = some req ∧ url = req.url ∧ x = .ofOption req.expiresAt

/-- The expiry that a request asks for is read as it is written. -/
def AsksExactly (r : ServerRequest) : Prop :=
  ∀ req, decodeRequest r.body = some req → ∀ t ∈ req.expiresAt, t.Exact

/-- What a call is to leave behind, and which calls a task may make. The first two fields
are about every call, and each of the others is about one kind. -/
structure Served (q : ServerTask Request) (st : ServerState Env) (c : LoggerCall (AppCall Call))
    (st' : ServerState Env) : Prop where
  kept : LinksKept st'.store
  stay : RowsStay st.store st'.store
  backfilled : ∀ code data ttl, c = .downstream (.store (.goRedisSet code data ttl)) →
    Shown st'.store code (encodingJson.unmarshal data)
  located : ∀ v, c = .downstream (.setHeader "Location" v) →
    ∃ r, q = .request r ∧ Located r st'.store v
  inserted : ∀ code url x, c = .downstream (.store (.pgInsert code url x)) →
    ∃ r, q = .request r ∧ Posted r url x
  clicked : ∀ event, c = .downstream (.send event) →
    ∃ r, q = .request r ∧ Clicked r st'.store event

/-- The server in production: `CachedStore` behind the handlers, the real codec of the
cache, and whatever requests `admits` lets in. -/
abbrev linkServer (ttl : ℤ) (tracker : Interface TrackerPointer) (analyticsStore : Interface Unit)
    (admits : ServerRequest → Prop) :
    System (ServerState Env) (ServerTask Request) (LoggerCall (AppCall Call))
      (LoggerAnswer (AppAnswer Answer)) ServerPanic (Option ResponseWriter) :=
  (goCache ttl).backing.server tracker analyticsStore admits

section

variable {ttl : ℤ} {tracker : Interface TrackerPointer} {analyticsStore : Interface Unit}
  {admits : ServerRequest → Prop}

/-- A call of the store does there what it does in the component. -/
theorem Backing.exec_store {SS SQ SC SA : Type} {SR : SC → Type}
    {backing : Backing SS SQ SC SR SA} {st st' : ServerState SS} {c : SC} {r : SR c}
    (h : backing.Exec st (.downstream (.store c)) r st') :
    backing.exec st.store c r st'.store := by
  cases h with
  | downstream h =>
      cases h with
      | store h => exact h

/-- The store of the server. -/
def serverStore : Component ((goCache ttl).system exactOnly)
    (linkServer ttl tracker analyticsStore admits) where
  state := ServerState.store
  call c := .downstream (.store c)
  answer _ r := r
  exec := Backing.exec_store

def linksServed (ttl : ℤ) (tracker : Interface TrackerPointer) (analyticsStore : Interface Unit)
    (admits : ServerRequest → Prop) : Contract (linkServer ttl tracker analyticsStore admits) where
  inv st := LinksKept st.store
  rely st st' := RowsStay st.store st'.store
  pre q st := match q with
    | .request r => AsksExactly r
    | .job (.backfill code data _) => Shown st.store code (encodingJson.unmarshal data)
    | .job _ => False
  ok := anyCall
  guar q h c _ st' := Served q h.now c st'
  post _ _ _ := True

/-! ## Calls that do not matter -/

/-- A call that neither goes to the store nor says where to go, nor that somebody has gone. -/
def Harmless : LoggerCall (AppCall Call) → Prop
  | .downstream (.store _) => False
  | .downstream (.send _) => False
  | .downstream (.setHeader key _) => key ≠ "Location"
  | _ => True

/-- What leaves the store alone. -/
theorem served_of_store {q : ServerTask Request} {st st' : ServerState Env}
    {c : LoggerCall (AppCall Call)} (hi : LinksKept st.store) (hsame : st'.store = st.store)
    (hstore : ∀ c', c ≠ .downstream (.store c'))
    (hlocated : ∀ v, c = .downstream (.setHeader "Location" v) →
      ∃ r, q = .request r ∧ Located r st'.store v)
    (hclicked : ∀ event, c = .downstream (.send event) →
      ∃ r, q = .request r ∧ Clicked r st'.store event) : Served q st c st' where
  kept := by rwa [hsame]
  stay := by
    rw [hsame]
    exact .refl _
  backfilled _ _ _ h := absurd h (hstore _)
  located := hlocated
  inserted _ _ _ h := absurd h (hstore _)
  clicked := hclicked

/-- A call behind `Logger` leaves the store alone, unless it goes there. -/
theorem store_of_exec {st st' : ServerState Env} {c : LoggerCall (AppCall Call)}
    {r : LoggerAnswer (AppAnswer Answer) c} (h : (goCache ttl).backing.Exec st c r st')
    (hstore : ∀ c', c ≠ .downstream (.store c')) : st'.store = st.store := by
  cases h with
  | incTotalRequests => rfl
  | timeNow now => rfl
  | slogInfo => rfl
  | downstream h =>
      cases h with
      | store h => exact absurd rfl (hstore _)
      | _ => rfl

theorem served_of_harmless {q : ServerTask Request} {c : LoggerCall (AppCall Call)}
    (hc : Harmless c)
    (h : History (ServerState Env) (LoggerCall (AppCall Call)) (LoggerAnswer (AppAnswer Answer)))
    (r : LoggerAnswer (AppAnswer Answer) c) (st' : ServerState Env)
    (hi : (linksServed ttl tracker analyticsStore admits).inv h.now)
    (he : (linkServer ttl tracker analyticsStore admits).exec h.now c r st') :
    (linksServed ttl tracker analyticsStore admits).guar q h c r st' := by
  have hstore : ∀ c', c ≠ .downstream (.store c') := by
    rintro c' rfl
    exact hc
  refine served_of_store hi (store_of_exec he hstore) hstore ?_ ?_
  · rintro v rfl
    exact absurd rfl hc
  · rintro event rfl
    exact hc.elim

/-! ## The methods of the store -/

/-- A call that inserts no row. -/
def NoInsert : Call → Prop
  | .pgInsert .. => False
  | _ => True

/-- A call that inserts a row only as asked for. Of the other calls nothing is asked. -/
def InsertsOnly (url : String) (x : NullTime) : Call → Prop
  | .pgInsert _ url' x' => url' = url ∧ x' = x
  | _ => True

theorem PgStore.lookup_noInsert (code : String) :
    (PgStore.lookup code).Obeys NoInsert fun _ => True := by
  refine ⟨trivial, fun row => ?_⟩
  rcases row with err | _ | ⟨longURL, x⟩
  · trivial
  · trivial
  · by_cases hvalid : x.valid = true
    · simp only [Prog.bind, hvalid, if_true]
      refine ⟨trivial, fun now => ?_⟩
      simp only [Prog.bind]
      split <;> trivial
    · simp only [Prog.bind, hvalid]
      trivial

theorem CachedStore.lookup_noInsert (cs : CachedStore) (code : String) :
    (cs.lookup code).Obeys NoInsert fun _ => True := by
  have hprimary : (cs.lookupPrimary code).Obeys NoInsert fun _ => True := by
    refine ⟨trivial, fun _ => ?_⟩
    refine (PgStore.lookup_noInsert code).bind fun found _ => ?_
    rcases found with ⟨_ | ⟨url, _ | t⟩, _ | err⟩
    · trivial
    · trivial
    · exact ⟨trivial, fun _ => trivial⟩
    · trivial
    · exact ⟨trivial, fun _ => ⟨trivial, fun _ => trivial⟩⟩
    · trivial
  refine ⟨trivial, fun cached => ?_⟩
  rcases cached with msg | _ | data
  · exact hprimary
  · exact hprimary
  · exact ⟨trivial, fun _ => trivial⟩

theorem CachedStore.save_insertsOnly (cs : CachedStore) (code url : String) (x : Option Time) :
    (cs.save code url x).Obeys (InsertsOnly url (.ofOption x)) fun _ => True := by
  refine ⟨⟨rfl, rfl⟩, fun answer => ?_⟩
  cases answer with
  | some err => trivial
  | none =>
      cases x with
      | none => exact ⟨trivial, fun _ => trivial⟩
      | some t => exact ⟨trivial, fun _ => ⟨trivial, fun _ => trivial⟩⟩

/-- What the store's contract says of a call is what the server's asks of it. -/
theorem linksKept_lifts (q₁ : Request) (q : ServerTask Request) {P : Call → Prop}
    (hP : ∀ code url x, P (.pgInsert code url x) → ∃ r, q = .request r ∧ Posted r url x) :
    (linksKept ttl).Lifts q₁
      (serverStore : Component _ (linkServer ttl tracker analyticsStore admits))
      (linksServed ttl tracker analyticsStore admits) q P where
  inv _ h := h
  rely _ _ h := .inr h
  ok _ _ _ _ := trivial
  guar h h' c r st' hc hnow hi he hguar := by
    obtain ⟨⟨hkept, hstay⟩, hbackfill⟩ := hguar
    rw [hnow] at hstay
    refine ⟨hkept, hstay, ?_, ?_, ?_, by rintro event ⟨⟩⟩
    · rintro code data lifetime ⟨⟩
      exact hbackfill _ _ _ rfl
    · rintro v ⟨⟩
    · rintro code url x ⟨⟩
      exact hP _ _ _ hc

/-! ## Handlers on the server -/

/-- The calls of a handler as the server sees them. -/
def onServer : (c : Web.HandlerCall (AppCall Call)) →
    Prog (LoggerCall (AppCall Call)) (LoggerAnswer (AppAnswer Answer)) ServerPanic
      (Web.HandlerAnswer (AppAnswer Answer) c)
  | .writer _ => .ret ()
  | .other c => .call (.downstream c) .ret

/-- From `h` on the handler keeps the contract, and ends as `post` says. -/
abbrev Handles (ttl : ℤ) (tracker : Interface TrackerPointer) (analyticsStore : Interface Unit)
    (admits : ServerRequest → Prop) (r : ServerRequest) {α : Type} (p : Handling Answer α)
    (h : History (ServerState Env) (LoggerCall (AppCall Call)) (LoggerAnswer (AppAnswer Answer)))
    (post : Except ServerPanic α → History (ServerState Env) (LoggerCall (AppCall Call))
      (LoggerAnswer (AppAnswer Answer)) → Prop) : Prop :=
  (linksServed ttl tracker analyticsStore admits).Along (.request r) (p.interpret onServer) h post

variable {r : ServerRequest} {h : History (ServerState Env) (LoggerCall (AppCall Call))
  (LoggerAnswer (AppAnswer Answer))}

/-- A recorder in front of the writer makes no difference. -/
theorem along_serve {p : Handling Answer Unit} (rr : Recorder)
    (hp : Handles ttl tracker analyticsStore admits r p h fun _ _ => True) :
    (linksServed ttl tracker analyticsStore admits).Along (.request r)
      (onDownstream (Recorder.serve p rr)) h fun _ _ => True := by
  induction p generalizing h rr with
  | ret a => trivial
  | throw e => trivial
  | call c k ih =>
      cases c with
      | writer c => exact ih () (rr.perform c) hp
      | other c =>
          intro h' hx hi answer st he hok
          obtain ⟨hg, hk⟩ := hp h' hx hi answer st he hok
          exact ⟨hg, ih answer rr hk⟩

/-- The rule of sequencing for handlers: the second part starts from the history that the
first leaves, and a panic of the first ends both. -/
theorem handles_bind {α β : Type} {p : Handling Answer α} {f : α → Handling Answer β}
    {post : Except ServerPanic β → History (ServerState Env) (LoggerCall (AppCall Call))
      (LoggerAnswer (AppAnswer Answer)) → Prop}
    (hp : Handles ttl tracker analyticsStore admits r p h fun o h' => match o with
      | .ok a => Handles ttl tracker analyticsStore admits r (f a) h' post
      | .error x => post (.error x) h') :
    Handles ttl tracker analyticsStore admits r (p >>= f) h post := by
  unfold Handles
  rw [Prog.interpret_bind]
  refine Contract.Along.bind (Contract.Along.mono hp fun o h' ho => ?_)
  cases o with
  | ok a => exact ho
  | error x => exact ho

section

variable {J : Env → Prop} (hJ : ∀ e e', RowsStay e e' → J e → J e')

include hJ

/-- A call to anything but the writer: what the rows show stays. -/
theorem handles_call {c : AppCall Call}
    (hguar : ∀ st answer st', LinksKept st.store → J st.store →
      (goCache ttl).backing.ExecApp st c answer st' →
        Served (.request r) st (.downstream c) st') (hh : J h.now.store) :
    Handles ttl tracker analyticsStore admits r (Handling.call c) h fun _ h' => J h'.now.store := by
  intro h' hx hi answer st he _
  have hh' : J h'.now.store := hx.stable (fun hr => hJ _ _ hr) hh
  cases he with
  | downstream he =>
      have hserved := hguar _ answer st hi hh' he
      exact ⟨hserved, hJ _ _ hserved.stay hh'⟩

end

/-- The calls of a handler that do not matter. -/
def HarmlessHandling : Web.HandlerCall (AppCall Call) → Prop
  | .writer _ => True
  | .other c => Harmless (.downstream c)

theorem handles_of_obeys {α : Type} {p : Handling Answer α}
    (hp : p.Obeys HarmlessHandling fun _ => True) :
    Handles ttl tracker analyticsStore admits r p h fun _ _ => True := by
  refine (Contract.along_interpret (J := fun _ => True) (fun c hc h _ => ?_) hp trivial).mono
    fun _ _ _ => trivial
  cases c with
  | writer c => trivial
  | other c =>
      intro h' _ hi answer st he _
      exact ⟨served_of_harmless hc h' answer st hi he, trivial⟩

/-- **A lookup by a handler** finds the row of its code. The store's own contract says so,
and is carried over to the server by `linksKept_lifts`. -/
theorem handles_lookup (code : String) :
    Handles ttl tracker analyticsStore admits r (onStore ((goCache ttl).lookup code)) h
      fun o h' => ∀ val err, o = .ok (some val, err) → Shown h'.now.store code val := by
  have hlift : (linksKept ttl).Lifts (.lookup code)
      (serverStore : Component _ (linkServer ttl tracker analyticsStore admits))
      (linksServed ttl tracker analyticsStore admits) (.request r) NoInsert :=
    linksKept_lifts _ _ fun _ _ _ h => h.elim
  have hbody : (linksKept ttl).Safe (.lookup code) ((goCache ttl).body (.lookup code))
      (.start h.now.store) := linksKept_lookup
  have hkept := Contract.Along.of_map hbody
  unfold Handles onStore
  rw [Prog.interpret_interpret]
  refine (Contract.Along.lift hlift hkept ((goCache ttl).lookup_noInsert code) rfl).mono ?_
  rintro o h' ⟨o₁, h₁, rfl, hnow, hpost⟩ val err heq
  rcases o₁ with x | found
  · cases heq
  · cases heq
    have hstore : h₁.now = h'.now.store := hnow
    rw [← hstore]
    exact hpost.2

/-- **A save by a handler** of what its request asks for: the row that it inserts, if it
does, is the one that was posted. -/
theorem handles_save {req : UrlShortenRequest} (hexact : AsksExactly r)
    (hpost : r.method = "POST" ∧ r.path = "/shorten") (hreq : decodeRequest r.body = some req)
    (code : String) :
    Handles ttl tracker analyticsStore admits r
      (onStore ((goCache ttl).save code req.url req.expiresAt)) h fun _ _ => True := by
  have hlift : (linksKept ttl).Lifts (.save code req.url req.expiresAt)
      (serverStore : Component _ (linkServer ttl tracker analyticsStore admits))
      (linksServed ttl tracker analyticsStore admits) (.request r)
      (InsertsOnly req.url (.ofOption req.expiresAt)) := by
    refine linksKept_lifts _ _ ?_
    rintro code url x ⟨rfl, rfl⟩
    exact ⟨r, rfl, hpost.1, hpost.2, req, hreq, rfl, rfl⟩
  have hbody : (linksKept ttl).Safe (.save code req.url req.expiresAt)
      ((goCache ttl).body (.save code req.url req.expiresAt)) (.start h.now.store) :=
    linksKept_save (hexact req hreq)
  have hkept := Contract.Along.of_map hbody
  unfold Handles onStore
  rw [Prog.interpret_interpret]
  exact (Contract.Along.lift hlift hkept ((goCache ttl).save_insertsOnly _ _ _) rfl).mono
    fun _ _ _ => trivial

/-- A harmless call. -/
theorem handles_harmless {J : Env → Prop} (hJ : ∀ e e', RowsStay e e' → J e → J e')
    {c : AppCall Call} (hc : Harmless (.downstream c)) (hh : J h.now.store) :
    Handles ttl tracker analyticsStore admits r (Handling.call c) h fun _ h' => J h'.now.store := by
  apply handles_call hJ ?_ hh
  intro st answer st' hi _ he
  exact @served_of_harmless ttl tracker analyticsStore admits _ _ hc (.start st) answer st' hi
    (.downstream he)

/-! ## The handlers -/

open Handling

theorem harmless_setHeader {key value : String} (h : key ≠ "Location") :
    HarmlessHandling (.other (.setHeader key value)) := h

theorem httpError_harmless (error : String) (code : ℕ) :
    (httpError error code : Handling Answer Unit).Obeys HarmlessHandling fun _ => True := by
  refine ⟨harmless_setHeader (by decide), fun _ => ⟨harmless_setHeader (by decide), fun _ => ?_⟩⟩
  unfold writeHeader
  split
  · exact ⟨trivial, fun _ => ⟨trivial, fun _ => trivial⟩⟩
  · trivial

theorem json_harmless (code : Option ℕ) (body : String) :
    (json code body : Handling Answer Unit).Obeys HarmlessHandling fun _ => True := by
  refine ⟨harmless_setHeader (by decide), fun _ => ?_⟩
  cases code with
  | none => exact ⟨trivial, fun _ => trivial⟩
  | some code =>
      dsimp only
      unfold writeHeader
      split
      · exact ⟨trivial, fun _ => ⟨trivial, fun _ => trivial⟩⟩
      · trivial

/-- The end of a redirect, behind its `Location`. -/
theorem redirect_harmless (r : ServerRequest) (url : String) (code : ℕ) :
    ∃ p : Handling Answer Unit, p.Obeys HarmlessHandling (fun _ => True) ∧
      redirect r url code = setHeader "Location" (redirectLocation r.path url) >>= fun _ => p := by
  refine ⟨_, ?_, rfl⟩
  have hrest : (writeHeader code >>= fun _ => if r.method = "GET" then write (foundBody r.path url)
      else pure () : Handling Answer Unit).Obeys HarmlessHandling fun _ => True := by
    have hbody : (if r.method = "GET" then write (foundBody r.path url)
        else pure () : Handling Answer Unit).Obeys HarmlessHandling fun _ => True := by
      split
      · exact ⟨trivial, fun _ => trivial⟩
      · trivial
    unfold writeHeader
    split
    · exact ⟨trivial, fun _ => hbody⟩
    · trivial
  by_cases hget : r.method = "GET" ∨ r.method = "HEAD"
  · simp only [if_pos hget]
    exact ⟨harmless_setHeader (by decide), fun _ => hrest⟩
  · simp only [if_neg hget]
    exact hrest

/-- The calls of `App.shorten` for a body: what it saves is what the body asks for. -/
def AsksFor (body : Option UrlShortenRequest) : HandlerCall → Prop
  | .save _ url expiresAt => ∃ req, body = some req ∧ url = req.url ∧ expiresAt = req.expiresAt
  | _ => True

theorem shortenLoop_asksFor (req : UrlShortenRequest) (n : ℕ) :
    (shortenLoop req n).Obeys (AsksFor (some req)) fun _ => True := by
  induction n with
  | zero => trivial
  | succ n ih =>
      refine ⟨trivial, fun shortKey => ?_⟩
      cases shortKey with
      | error msg => trivial
      | ok shortKey =>
          refine ⟨trivial, fun found => ?_⟩
          rcases found with err | _ | val
          · trivial
          · refine ⟨⟨req, rfl, rfl, rfl⟩, fun saved => ?_⟩
            cases saved <;> trivial
          · exact ih

theorem shorten_asksFor (body : Option UrlShortenRequest) :
    (App.shorten body).Obeys (AsksFor body) fun _ => True := by
  unfold App.shorten
  cases body with
  | none => trivial
  | some req =>
      by_cases hurl : req.url = ""
      · simp only [if_pos hurl]
        trivial
      · simp only [if_neg hurl]
        refine (shortenLoop_asksFor req 5).bind fun response _ => ?_
        cases response with
        | some answer => trivial
        | none => trivial

theorem handles_Shorten (hexact : AsksExactly r) (hpost : r.method = "POST" ∧ r.path = "/shorten") :
    Handles ttl tracker analyticsStore admits r
      (Application.Shorten ⟨(goCache ttl).backing.methods, tracker, analyticsStore⟩ r) h
      fun _ _ => True := by
  apply handles_bind
  unfold Handles
  rw [Prog.interpret_interpret]
  refine (Contract.along_interpret (J := fun _ => True) ?_
    (shorten_asksFor (decodeRequest r.body)).mapThrow trivial).mono ?_
  · intro c hc h _
    cases c with
    | generateShortKey =>
        exact handles_harmless (J := fun _ => True) (c := .generateShortKey) (fun _ _ _ h => h)
          trivial trivial
    | totalShortenedAdd =>
        exact handles_harmless (J := fun _ => True) (c := .totalShortenedAdd) (fun _ _ _ h => h)
          trivial trivial
    | lookup code =>
        refine handles_bind ((handles_lookup code).mono fun o h' _ => ?_)
        cases o <;> trivial
    -- the one call that makes a row: of what the body asks for
    | save code url expiresAt =>
        obtain ⟨req, hreq, rfl, rfl⟩ := hc
        exact handles_save hexact hpost hreq code
  · rintro (x | response) h' -
    · trivial
    · cases response with
      | httpError error code => exact handles_of_obeys (httpError_harmless error code)
      | created shortURL => exact handles_of_obeys (json_harmless _ _)

/-- The calls of a redirect after its lookup. -/
def AfterLookup (code clientIP : String) (val : Option LookupResult) : RedirectCall → Prop
  | .lookup _ => False
  | .send event => event.code = code ∧ event.ip = clientIP ∧ val.isSome = true
  | _ => True

/-- Where a redirect goes is decided by its lookup. -/
theorem redirectHandler_afterLookup (tracker : Interface TrackerPointer) (code clientIP : String) :
    (∃ error status, App.redirectHandler tracker code clientIP = .ret (.httpError error status)) ∨
      ∃ k, App.redirectHandler tracker code clientIP = .call (.lookup code) k ∧
        ∀ found : Option LookupResult × Option StoreError,
          (k found).Obeys (AfterLookup code clientIP found.1) fun response =>
            ∀ url status, response = .redirect url status →
              ∃ val, found.1 = some val ∧ url = val.url := by
  unfold App.redirectHandler
  by_cases hcode : code = ""
  · rw [if_pos hcode]
    exact .inl ⟨_, _, rfl⟩
  rw [if_neg hcode]
  refine .inr ⟨_, rfl, ?_⟩
  rintro ⟨val, err⟩
  rcases err with _ | _ | msg
  · cases val with
    | none => rintro _ _ ⟨⟩
    | some val =>
        refine ⟨trivial, fun _ => ?_⟩
        cases tracker with
        | nil =>
            rintro _ _ ⟨⟩
            exact ⟨val, rfl, rfl⟩
        | of pointer =>
            refine ⟨trivial, fun now => ?_⟩
            cases pointer with
            | nil => trivial
            | tracker =>
                -- the event is sent before the answer, of the code that was looked up
                refine ⟨⟨rfl, rfl, rfl⟩, fun sent => ?_⟩
                cases sent with
                | error p => trivial
                | ok _ =>
                    rintro _ _ ⟨⟩
                    exact ⟨val, rfl, rfl⟩
  · rintro _ _ ⟨⟩
  · rintro _ _ ⟨⟩

/-- The `Location` of a link that was found is that of its row. -/
theorem handles_redirect {code : String} (hpath : r.path = "/" ++ code) {val : LookupResult}
    (hshown : Shown h.now.store code val) (status : ℕ) :
    Handles ttl tracker analyticsStore admits r (redirect r val.url status) h fun _ _ => True := by
  obtain ⟨p, hp, heq⟩ := redirect_harmless r val.url status
  rw [heq]
  apply handles_bind
  have hlocation : Handles ttl tracker analyticsStore admits r
      (setHeader "Location" (redirectLocation r.path val.url)) h
      fun _ h' => Shown h'.now.store code val := by
    apply handles_call (J := fun e => Shown e code val) (fun _ _ hr hs => hs.mono hr) ?_ hshown
    intro st answer st' hi hs he
    cases he with
    | setHeader =>
        refine served_of_store hi rfl (fun _ => by rintro ⟨⟩) ?_ fun _ => by rintro ⟨⟩
        rintro v ⟨⟩
        obtain ⟨row, hrow, hshows⟩ := hs
        refine ⟨r, rfl, code, row, hpath, hrow, ?_⟩
        rcases hshows with rfl | rfl <;> rfl
  refine hlocation.mono fun o h' _ => ?_
  cases o with
  | error x => trivial
  | ok _ => exact handles_of_obeys hp

theorem handles_RedirectHandler {values : List (String × String)}
    (hpath : r.path = "/" ++ Application.pathValue values) :
    Handles ttl tracker analyticsStore admits r
      (Application.RedirectHandler ⟨(goCache ttl).backing.methods, tracker, analyticsStore⟩
        values r) h fun _ _ => True := by
  apply handles_bind
  rcases redirectHandler_afterLookup tracker (Application.pathValue values) r.host with
    ⟨error, status, heq⟩ | ⟨k, heq, hk⟩
  · rw [heq]
    exact handles_of_obeys (httpError_harmless error status)
  rw [heq]
  apply handles_bind
  refine (handles_lookup (Application.pathValue values)).mono fun o h₁ hfound => ?_
  rcases o with x | ⟨val, err⟩
  · trivial
  -- what was found is shown from now on
  let J : Env → Prop := fun e => ∀ v, val = some v → Shown e (Application.pathValue values) v
  have hJ : ∀ e e', RowsStay e e' → J e → J e' := fun _ _ hr hs v hv => (hs v hv).mono hr
  have hstart : J h₁.now.store := by
    rintro v rfl
    exact hfound v err rfl
  dsimp only
  unfold Handles
  rw [Prog.interpret_interpret]
  refine (Contract.along_interpret (J := fun st => J st.store) ?_ (hk (val, err)).mapThrow
    hstart).mono ?_
  · intro c hc h hh
    cases c with
    | lookup code => exact hc.elim
    | totalRedirectsAdd => exact handles_harmless (c := .totalRedirectsAdd) hJ trivial hh
    | timeNow => exact handles_harmless (c := .timeNow) hJ trivial hh
    | send event =>
        refine handles_call (c := .send event) hJ ?_ hh
        rintro st answer st' hi hshown ⟨receiver⟩
        obtain ⟨hcode, hip, hfound⟩ := hc
        obtain ⟨v, hv⟩ := Option.isSome_iff_exists.mp hfound
        obtain ⟨row, hrow, -⟩ := hshown v hv
        refine served_of_store hi rfl (fun _ => by rintro ⟨⟩) (fun _ => by rintro ⟨⟩) ?_
        rintro _ ⟨⟩
        exact ⟨r, rfl, by rw [hcode, hpath], hip, row, by rw [hcode, hrow]⟩
  · rintro (x | response) h₂ ⟨hshown, hresponse⟩
    · trivial
    · cases response with
      | httpError error status => exact handles_of_obeys (httpError_harmless error status)
      | redirect url status =>
          obtain ⟨v, hv, rfl⟩ := hresponse _ rfl url status rfl
          exact handles_redirect hpath (hshown v hv) status

theorem metricsHandler_harmless :
    (Application.MetricsHandler : Handling Answer Unit).Obeys HarmlessHandling fun _ => True := by
  refine ⟨harmless_setHeader (by decide), fun _ => ⟨trivial, fun totalRequests => ⟨trivial, ?_⟩⟩⟩
  intro totalShortened
  refine ⟨trivial, fun totalRedirects => ⟨trivial, fun cacheHits => ⟨trivial, ?_⟩⟩⟩
  intro cacheMisses
  exact ⟨trivial, fun _ => trivial⟩

theorem statsHandler_harmless (app : Application Answer) (values : List (String × String)) :
    (app.StatsHandler values).Obeys HarmlessHandling fun _ => True := by
  unfold Application.StatsHandler
  by_cases hcode : Application.pathValue values = ""
  · rw [if_pos hcode]
    exact httpError_harmless _ _
  rw [if_neg hcode]
  by_cases hstore : app.analyticsStore ≠ .nil
  · rw [if_pos hstore]
    refine ⟨trivial, fun answer => ?_⟩
    cases answer with
    | error msg => exact httpError_harmless _ _
    | ok totalClicks => exact json_harmless none (encodeCounts [("total_clicks", totalClicks)])
  · rw [if_neg hstore]
    exact httpError_harmless _ _

/-! ## Whole requests -/

theorem handles_serveMux (hexact : AsksExactly r) :
    Handles ttl tracker analyticsStore admits r
      (serveMux ⟨(goCache ttl).backing.methods, tracker, analyticsStore⟩ r) h fun _ _ => True := by
  unfold serveMux
  cases hfound : (mainMux.get mainMux_isSome).handler r.mux with
  | none =>
      dsimp only
      by_cases hnone : allowedMethods r.path = []
      · rw [if_pos hnone]
        exact handles_of_obeys (httpError_harmless _ _)
      · rw [if_neg hnone]
        apply handles_of_obeys
        exact ⟨harmless_setHeader (by decide), fun _ => httpError_harmless _ _⟩
  | some found =>
      obtain ⟨route, values⟩ := found
      obtain ⟨p, hp, -⟩ := entry_of_handler hfound
      simp only [mainEntries, List.mem_cons, Prod.mk.injEq, List.not_mem_nil, or_false] at hp
      -- in the order in which main registers them
      rcases hp with ⟨-, rfl⟩ | ⟨-, rfl⟩ | ⟨-, rfl⟩ | ⟨-, rfl⟩ | ⟨-, rfl⟩
      · exact handles_of_obeys (json_harmless (some 200) "\x7b\"status\": \"ok\"\x7d")
      · exact handles_Shorten hexact (shorten_route hfound)
      · exact handles_RedirectHandler (redirect_route hfound)
      · exact handles_of_obeys (statsHandler_harmless _ values)
      · dsimp only
        rw [Route.serve, IPWhitelist]
        split
        · exact handles_of_obeys metricsHandler_harmless
        · exact handles_of_obeys (httpError_harmless _ _)

theorem handles_RateLimiter {next : Handling Answer Unit}
    (hnext : ∀ h, Handles ttl tracker analyticsStore admits r next h fun _ _ => True) :
    Handles ttl tracker analyticsStore admits r (RateLimiter next r) h fun _ _ => True := by
  have hcall : ∀ {c : AppCall Call} {f : AppAnswer Answer c → Handling Answer Unit} {h},
      Harmless (.downstream c) →
        (∀ a h, Handles ttl tracker analyticsStore admits r (f a) h fun _ _ => True) →
          Handles ttl tracker analyticsStore admits r (Handling.call c >>= f) h
            fun _ _ => True := by
    intro c f h hc hf
    refine handles_bind ((handles_harmless (J := fun _ => True) (fun _ _ _ h => h) hc trivial).mono
      fun o h' _ => ?_)
    cases o with
    | error x => trivial
    | ok a => exact hf a h'
  refine hcall (c := .limiterNow) trivial fun now h => ?_
  refine hcall (c := .loadOrStore (clientIP r.remoteAddr) now) trivial fun id h => ?_
  refine hcall (c := .limiterNow) trivial fun now h => ?_
  refine hcall (c := .see id now) trivial fun _ h => ?_
  refine hcall (c := .allow id) trivial fun allowed h => ?_
  cases allowed with
  | true => exact hnext h
  | false => exact handles_of_obeys (httpError_harmless _ _)

/-- **A request** on the server. -/
theorem served_request (hexact : AsksExactly r) :
    (linksServed ttl tracker analyticsStore admits).Safe (.request r)
      ((linkServer ttl tracker analyticsStore admits).body (.request r)) h := by
  have hlog : ∀ {α : Type} {c : LoggerCall (AppCall Call)} {k : LoggerAnswer (AppAnswer Answer) c →
      Prog (LoggerCall (AppCall Call)) (LoggerAnswer (AppAnswer Answer)) ServerPanic α} {h},
      Harmless c →
        (∀ a h, (linksServed ttl tracker analyticsStore admits).Along (.request r) (k a) h
          fun _ _ => True) →
        (linksServed ttl tracker analyticsStore admits).Along (.request r) (.call c k) h
          fun _ _ => True :=
    fun hc hk h' _ hi answer st he _ =>
      ⟨served_of_harmless hc h' answer st hi he, hk answer _⟩
  apply Contract.Along.bind
  -- the counter and the clock before the mux, and the clock and the log behind it
  have hlogger : (linksServed ttl tracker analyticsStore admits).Along (.request r)
      (wrappedMux ⟨(goCache ttl).backing.methods, tracker, analyticsStore⟩ r) h
      fun _ _ => True := by
    refine hlog trivial fun _ h => hlog trivial fun start h => ?_
    change (linksServed ttl tracker analyticsStore admits).Along (.request r)
      (onDownstream (Recorder.serve (RateLimiter (serveMux _ r) r) ⟨.new, 200⟩) >>= _) h _
    refine Contract.Along.bind ((along_serve ⟨.new, 200⟩
      (handles_RateLimiter fun h => handles_serveMux hexact)).mono ?_)
    rintro (x | rr) h -
    · trivial
    · exact hlog trivial fun now h => hlog trivial fun _ h => trivial
  refine hlogger.mono ?_
  rintro (x | w) h -
  · trivial
  · trivial

/-- **A backfill** on the server. -/
theorem served_backfill {code data : String} {lifetime : ℤ} {st : ServerState Env}
    (hshown : Shown st.store code (encodingJson.unmarshal data)) :
    (linksServed ttl tracker analyticsStore admits).Safe (.job (.backfill code data lifetime))
      ((linkServer ttl tracker analyticsStore admits).body (.job (.backfill code data lifetime)))
      (.start st) := by
  have hlift : (linksKept ttl).Lifts (.backfill code data lifetime)
      (serverStore : Component _ (linkServer ttl tracker analyticsStore admits))
      (linksServed ttl tracker analyticsStore admits) (.job (.backfill code data lifetime))
      NoInsert := linksKept_lifts _ _ fun _ _ _ h => h.elim
  have hcalls : ((goCache ttl).body (.backfill code data lifetime)).Obeys NoInsert
      fun _ => True := ⟨trivial, fun _ => trivial⟩
  apply Contract.Along.bind
  refine (Contract.Along.lift hlift (f := Empty.elim) (linksKept_backfill hshown) hcalls
    rfl).mono ?_
  rintro (x | reply) h -
  · trivial
  · trivial

theorem linksServed_holds (hadmits : ∀ r, admits r → AsksExactly r) :
    (linksServed ttl tracker analyticsStore admits).Holds where
  drift st st' hi hd := by
    cases hd with
    | store hd => exact hi.drift hd
    | _ => exact ⟨hi, .refl _⟩
  call q h c r st hi he hg := by
    refine ⟨hg.kept, hg.stay, fun q' hq' => ?_⟩
    rcases c with _ | _ | entry | c
    · cases hq'
    · cases hq'
    · cases hq'
    · cases c with
      | store c =>
          -- a backfill is spawned by its call alone, which has shown what it caches
          obtain ⟨q₀, hq₀, rfl⟩ := List.mem_map.mp hq'
          cases c with
          | goRedisSet code data lifetime =>
              rw [List.mem_singleton.mp hq₀]
              exact hg.backfilled _ _ _ rfl
          | _ => cases hq₀
      | _ => cases hq'
  arrive q st hq _ := by
    cases q with
    | request r => exact hadmits r hq.2
    | job q => exact hq.elim
  body q st _ hq := by
    rcases q with r | (_ | _ | _)
    · exact served_request hq
    · exact hq.elim
    · exact hq.elim
    · exact served_backfill hq

/-! ## Every interleaving -/

/-- The `Location` that a call sets. -/
def location : Prog.Made (LoggerCall (AppCall Call)) (LoggerAnswer (AppAnswer Answer)) →
    Option String
  | ⟨.downstream (.setHeader key value), _⟩ => if key = "Location" then some value else none
  | _ => none

/-- Where a request was told to go. -/
def locations (t : ServerThread Env Request Call Answer) : List String :=
  t.past.calls.filterMap location

theorem call_of_location
    {x : Prog.Made (LoggerCall (AppCall Call)) (LoggerAnswer (AppAnswer Answer))} {v : String}
    (h : location x = some v) : x.1 = .downstream (.setHeader "Location" v) := by
  unfold location at h
  split at h
  · next key value _ =>
    by_cases hkey : key = "Location"
    · rw [if_pos hkey, Option.some.injEq] at h
      rw [hkey, h]
    · rw [if_neg hkey] at h
      cases h
  · cases h

/-- A call that leaves a new row is its insert. -/
theorem inserted_of_exec {e e' : Env} {c : Call} {r : Answer c} (he : Exec e c r e')
    {code url : String} {x : NullTime} (hrow : e'.urls code = some (url, x)) :
    e.urls code = some (url, x) ∨ c = .pgInsert code url x := by
  cases he with
  | @pgInsert code' url' x' =>
      by_cases hcode : code = code'
      · unfold Env.insert at hrow
        dsimp only at hrow
        rw [hcode, Function.update_self, Option.some.injEq, Prod.mk.injEq] at hrow
        exact .inr (by rw [hcode, hrow.1, hrow.2])
      · unfold Env.insert at hrow
        dsimp only at hrow
        rw [Function.update_of_ne hcode] at hrow
        exact .inl hrow
  | _ => exact .inl hrow

/-- Rows come from inserts: a row at the end of a log was there at its beginning, or the log
has the call that made it. -/
theorem inserted_of_logged {st st' : ServerState Env}
    {log : List (Prog.Made (LoggerCall (AppCall Call)) (LoggerAnswer (AppAnswer Answer)))}
    (hlog : (linkServer ttl tracker analyticsStore admits).Logged st log st') {code url : String}
    {x : NullTime} (hrow : st'.store.urls code = some (url, x)) :
    st.store.urls code = some (url, x) ∨
      ∃ made ∈ log, made.1 = .downstream (.store (.pgInsert code url x)) := by
  induction hlog with
  | nil => exact .inl hrow
  | @drift st₁ st₂ st₃ log hd _ ih =>
      refine (ih hrow).imp_left fun h => ?_
      cases hd with
      | store hd => rwa [← hd.urls]
      | _ => exact h
  | @call st₁ st₂ st₃ c r log he _ ih =>
      rcases ih hrow with h | ⟨made, hmade, heq⟩
      · by_cases hstore : ∃ c', c = .downstream (.store c')
        · obtain ⟨c', rfl⟩ := hstore
          rcases inserted_of_exec (Backing.exec_store he) h with h | rfl
          · exact .inl h
          · exact .inr ⟨_, List.mem_cons_self, rfl⟩
        · rw [store_of_exec he (not_exists.mp hstore)] at h
          exact .inl h
      · exact .inr ⟨made, List.mem_cons_of_mem _ hmade, heq⟩

/-- An event that a call leaves in the channel is the one that it sends, or was there. -/
theorem sent_of_exec {st st' : ServerState Env} {c : LoggerCall (AppCall Call)}
    {r : LoggerAnswer (AppAnswer Answer) c} (h : (goCache ttl).backing.Exec st c r st')
    {event : ClickEvent} (hevent : event ∈ st'.analyticsChan.buf) :
    event ∈ st.analyticsChan.buf ∨ c = .downstream (.send event) := by
  cases h with
  | downstream h =>
      cases h with
      | @send sent receiver =>
          dsimp only at hevent
          cases hsent : st.analyticsChan.trySend receiver sent with
          | queued ch =>
              obtain ⟨-, hbuf, -⟩ := Chan.of_queued hsent
              rw [hsent, Wiring.sendChan, hbuf, List.mem_append, List.mem_singleton] at hevent
              exact hevent.imp_right fun heq => by rw [heq]
          | _ =>
              rw [hsent] at hevent
              exact .inl hevent
      | _ => exact .inl hevent
  | _ => exact .inl hevent

/-- Events in the channel come from sends, by the same argument as `inserted_of_logged`. -/
theorem sent_of_logged {st st' : ServerState Env}
    {log : List (Prog.Made (LoggerCall (AppCall Call)) (LoggerAnswer (AppAnswer Answer)))}
    (hlog : (linkServer ttl tracker analyticsStore admits).Logged st log st') {event : ClickEvent}
    (hevent : event ∈ st'.analyticsChan.buf) :
    event ∈ st.analyticsChan.buf ∨ ∃ made ∈ log, made.1 = .downstream (.send event) := by
  induction hlog with
  | nil => exact .inl hevent
  | @drift st₁ st₂ st₃ log hd _ ih =>
      refine (ih hevent).imp_left fun h => ?_
      cases hd with
      | receive hitem =>
          rw [(Chan.of_item hitem).1]
          exact List.mem_cons_of_mem _ h
      | close hclose => rwa [← (Chan.of_close hclose).1]
      | _ => exact h
  | @call st₁ st₂ st₃ c r log he _ ih =>
      rcases ih hevent with h | ⟨made, hmade, heq⟩
      · rcases sent_of_exec he h with h | hcall
        · exact .inl h
        · exact .inr ⟨_, List.mem_cons_self, hcall⟩
      · exact .inr ⟨made, List.mem_cons_of_mem _ hmade, heq⟩

/-- From any state to any later one. -/
theorem rowsStay_of_path {st st' : ServerState Env}
    (h : Relation.ReflTransGen (linksServed ttl tracker analyticsStore admits).rely st st') :
    RowsStay st.store st'.store :=
  RowsStay.of_path (h.lift ServerState.store fun _ _ hr => hr)

/-- What the redirects and the clicks say in a world, and what the rows are that they speak of. -/
structure RedirectedAsPosted (e₀ : Env) (w : ServerWorld Env Request Call Answer) : Prop where
  located : ∀ t ∈ w.threads, ∀ v ∈ locations t, ∃ r, t.req = .request r ∧ Located r w.env.store v
  posted : ∀ code url x, w.env.store.urls code = some (url, x) →
    e₀.urls code = some (url, x) ∨ ∃ t ∈ w.threads, ∃ r, t.req = .request r ∧ Posted r url x
  stay : RowsStay e₀ w.env.store
  agree : ∀ t ∈ w.threads, ∀ t' ∈ w.threads, ∀ r r', t.req = .request r → t'.req = .request r' →
    r.path = r'.path → ∀ v ∈ locations t, ∀ v' ∈ locations t', v = v'
  clicked : ∀ event ∈ w.env.analyticsChan.buf, ∃ t ∈ w.threads, ∃ r, t.req = .request r ∧
    Clicked r w.env.store event

/-- A path has one row, so two places where redirects of it go at one moment are the same. -/
theorem Located.agree {r r' : ServerRequest} {e : Env} {v v' : String} (h : Located r e v)
    (h' : Located r' e v') (hpath : r.path = r'.path) : v = v' := by
  obtain ⟨code, row, hcode, hrow, rfl⟩ := h
  obtain ⟨code', row', hcode', hrow', rfl⟩ := h'
  have hsame : code = code' := by
    rw [hcode, hcode'] at hpath
    have hlist := congrArg String.toList hpath
    rw [String.toList_append, String.toList_append] at hlist
    exact String.toList_injective (List.append_cancel_left hlist)
  rw [← hsame, hrow, Option.some.injEq] at hrow'
  rw [hpath, hrow']

/-- **A redirect goes where a request has asked for**: to the URL of the row of its code, and a
row is one that was there or that a `POST /shorten` has asked for, and stays. What waits for the
analytics worker are redirects of requests, too. -/
theorem redirected_as_posted (hadmits : ∀ r, admits r → AsksExactly r) {e₀ : Env}
    (h₀ : LinksKept e₀) {cap : ℕ} {w : ServerWorld Env Request Call Answer}
    (hw : (linkServer ttl tracker analyticsStore admits).Reach anyCall (.start e₀ (.make cap)) w) :
    RedirectedAsPosted e₀ w := by
  have hholds : (linksServed ttl tracker analyticsStore admits).Holds := linksServed_holds hadmits
  have hinv : (linksServed ttl tracker analyticsStore admits).inv (.start e₀ (.make cap)) := h₀
  have hcalls := Contract.sound_since hholds hinv hw
  -- a `Location` was right when it was set, and the row that it was taken from has stayed
  have hlocated : ∀ t ∈ w.threads, ∀ v ∈ locations t,
      ∃ r, t.req = .request r ∧ Located r w.env.store v := by
    intro t ht v hv
    obtain ⟨x, hx, hlocation⟩ := List.mem_filterMap.mp hv
    obtain ⟨h', st, hserved, hsince⟩ := (hcalls t ht).of_mem hx
    obtain ⟨r, hreq, code, row, hpath, hrow, hv⟩ := hserved.located v (call_of_location hlocation)
    exact ⟨r, hreq, code, row, hpath, rowsStay_of_path hsince _ _ hrow, hv⟩
  obtain ⟨log, hperm, hlog⟩ := hw.logged
  refine ⟨hlocated, ?_, ?_, ?_, ?_⟩
  · -- where a row comes from: the log of all requests has the insert, and some request made it
    intro code url x hrow
    refine (inserted_of_logged hlog hrow).imp_right ?_
    rintro ⟨made, hmade, heq⟩
    obtain ⟨t, ht, hx⟩ := List.mem_flatMap.mp (hperm.mem_iff.mp hmade)
    obtain ⟨h', st, hserved, -⟩ := (hcalls t ht).of_mem hx
    exact ⟨t, ht, hserved.inserted _ _ _ heq⟩
  · have hempty : (linksServed ttl tracker analyticsStore admits).Good
        ⟨.start e₀ (.make cap), []⟩ := ⟨hinv, fun t ht => by cases ht⟩
    exact rowsStay_of_path (hempty.later hholds hw).2.1
  · -- two redirects of one path go by one row, that of the present
    intro t ht t' ht' r r' hreq hreq' hpath v hv v' hv'
    obtain ⟨r₁, hr₁, hloc⟩ := hlocated t ht v hv
    obtain ⟨r₂, hr₂, hloc'⟩ := hlocated t' ht' v' hv'
    rw [hreq, ServerTask.request.injEq] at hr₁
    rw [hreq', ServerTask.request.injEq] at hr₂
    rw [← hr₁] at hloc
    rw [← hr₂] at hloc'
    exact hloc.agree hloc' hpath
  · -- an event in the channel was sent by a request, after its lookup
    intro event hevent
    rcases sent_of_logged hlog hevent with hstart | ⟨made, hmade, heq⟩
    · cases hstart
    · obtain ⟨t, ht, hx⟩ := List.mem_flatMap.mp (hperm.mem_iff.mp hmade)
      obtain ⟨h', st, hserved, hsince⟩ := (hcalls t ht).of_mem hx
      obtain ⟨r, hreq, hpath, hip, row, hrow⟩ := hserved.clicked _ heq
      exact ⟨t, ht, r, hreq, hpath, hip, row, rowsStay_of_path hsince _ _ hrow⟩

end

/-! ### An instance -/

/-- A request without a date asks for nothing that could be misread. -/
theorem asksExactly_of_none {r : ServerRequest}
    (h : ∀ req, decodeRequest r.body = some req → req.expiresAt = none) : AsksExactly r := by
  intro req hreq t ht
  rw [h req hreq] at ht
  cases ht

theorem asksExactly_postLink : AsksExactly postLink := by
  apply asksExactly_of_none
  have hdecode : decodeRequest postLink.body = some ⟨"https://example.com", none⟩ := by
    decide +kernel
  intro req hreq
  rw [hdecode, Option.some.injEq] at hreq
  rw [← hreq]

theorem asksExactly_getLink (remoteAddr : String) : AsksExactly (getLink remoteAddr) := by
  apply asksExactly_of_none
  have hdecode : decodeRequest "" = none := by decide +kernel
  intro req hreq
  rw [getLink, hdecode] at hreq
  cases hreq

/-- Both redirects of the run go to the link that was posted. -/
theorem redirected_as_posted_example :
    (shortenedRun AsksExactly).threads.map locations =
        [[], ["https://example.com"], ["https://example.com"]] ∧
      (shortenedRun AsksExactly).env.analyticsChan.buf.map (·.ip) = ["192.0.2.1", "192.0.2.2"] ∧
      RedirectedAsPosted .empty (shortenedRun AsksExactly) := by
  refine ⟨?_, ?_, redirected_as_posted (fun _ h => h) linksKept_empty
    (shortenedRun_reach asksExactly_postLink asksExactly_getLink)⟩
  · decide +kernel
  · decide +kernel

end EngineeringLab.Shortener
