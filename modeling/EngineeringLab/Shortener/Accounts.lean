/-
What the server counts and logs, in every interleaving of requests.

`Logger` counts a request before it lets it go on and logs it when its handler has returned.
The limiter counts nobody; behind it `Shorten` counts the links that it saved and
`RedirectHandler` the links that it found. The three counters of `/stats` and the lines of
the log are thus written at different moments of a request, by different layers, and other
requests come in between.

The marks of a request are the calls that leave something to count: a counter that goes up,
a line of the log, a check of the limiter that is passed, and what is written to the client
(`Mark`). For each handler one lemma says which marks it may leave and in what order,
whatever the store, the generator and the tracker answer; the middleware adds its own around
them (`accounted`).

What the counters hold is then the number of marks of all requests, and the log is their
list, since both change by nothing else (`accountsOf_reach`). So at any moment of any run
each counter is the number of the requests that it is meant to count, up to those that are
on their way, and the log has one line for every request that was answered, with the status
that its client got (`server_accounts`).
-/
import EngineeringLab.Shortener.CacheLinks
import EngineeringLab.Shortener.Server
import EngineeringLab.Web.Response

set_option autoImplicit false

open Concurrency Web

namespace EngineeringLab.Shortener

/-! ## Marks -/

/-- What a request leaves behind, and what the limiter said to it. -/
inductive Mark where
  | counted
  | passed
  | refused
  | redirected
  | shortened
  | logged (method path : String) (status : ℕ)
  deriving DecidableEq, Repr

section

variable {SC : Type} {SR : SC → Type}

def appMark : Prog.Made (AppCall SC) (AppAnswer SR) → List Mark
  | ⟨.allow _, true⟩ => [.passed]
  | ⟨.allow _, false⟩ => [.refused]
  | ⟨.totalRedirectsAdd, _⟩ => [.redirected]
  | ⟨.totalShortenedAdd, _⟩ => [.shortened]
  | _ => []

def serverMark : Prog.Made (LoggerCall (AppCall SC)) (LoggerAnswer (AppAnswer SR)) → List Mark
  | ⟨.incTotalRequests, _⟩ => [.counted]
  | ⟨.timeNow, _⟩ => []
  | ⟨.slogInfo entry, _⟩ => [.logged entry.method entry.path entry.status]
  | ⟨.downstream c, r⟩ => appMark ⟨c, r⟩

/-! ## Answers -/

/-- These calls answer with one status, and that is the last one given, too. -/
structure Answers (status : ℕ) (calls : List WriterCall) : Prop where
  repeats : LastHeaderRepeats calls
  sent : (ResponseWriter.new.performAll calls).sent = status

theorem answers_writeHeader {code : ℕ} (final : 200 ≤ code ∧ code ≤ 599) (texts : List String) :
    Answers code (.writeHeader code final :: texts.map .write) := by
  constructor
  · have hlast : lastHeader (texts.map WriterCall.write) = none := by
      induction texts with
      | nil => rfl
      | cons text texts ih => rwa [List.map_cons, lastHeader_write]
    rw [LastHeaderRepeats, lastHeader_writeHeader, hlast]
    simp [WriterCall.sends]
  · rw [ResponseWriter.sent, ResponseWriter.status_performAll]
    rfl

theorem answers_write (text : String) : Answers 200 [.write text] := by
  constructor
  · intro code hcode
    cases hcode
  · rfl

/-- Behind `Logger` both the recorder and the client have the status. -/
theorem Answers.recorded {status : ℕ} {calls : List WriterCall} (h : Answers status calls) :
    (Recorder.performAll ⟨.new, 200⟩ calls).statusCode = status ∧
      (Recorder.performAll ⟨.new, 200⟩ calls).responseWriter.sent = status := by
  have hsent : (Recorder.performAll ⟨.new, 200⟩ calls).responseWriter.sent = status := by
    rw [Recorder.responseWriter_performAll]
    exact h.sent
  exact ⟨((Recorder.agrees_iff calls).mpr h.repeats).trans hsent, hsent⟩

/-- After the marks of `l` and nothing written, the program answers with `status`. -/
def Responds (status : ℕ) (p : Handling SR Unit) (during : List (WriterCall ⊕ Mark) → Prop)
    (l : List (WriterCall ⊕ Mark)) : Prop :=
  p.Emits (handlerMark appMark) during l fun o l' =>
    o = .ok () ∧ Answers status (written l') ∧ unwritten l' = unwritten l

section

variable {during : List (WriterCall ⊕ Mark) → Prop} {l : List (WriterCall ⊕ Mark)}

open Handling

/-- A call that leaves no mark. -/
theorem emits_call {α : Type} {c : AppCall SC} {f : AppAnswer SR c → Handling SR α}
    {after : Except ServerPanic α → List (WriterCall ⊕ Mark) → Prop} (hdur : during l)
    (hsilent : ∀ r : AppAnswer SR c, appMark ⟨c, r⟩ = [])
    (h : ∀ r, (f r).Emits (handlerMark appMark) during l after) :
    (Handling.call c >>= f).Emits (handlerMark appMark) during l after := by
  refine ⟨hdur, fun r => ?_⟩
  have hmark : handlerMark appMark ⟨.other c, r⟩ = [] := by
    rw [handlerMark, hsilent]
    rfl
  rw [hmark, List.append_nil]
  exact h r

section

variable (hl : written l = []) (hdur : ∀ l', unwritten l' = unwritten l → during l')

include hl hdur

/-- The status and a body. -/
theorem responds_writeHeader {code : ℕ} (final : 200 ≤ code ∧ code ≤ 599) (text : String) :
    Responds code (writeHeader code >>= fun _ => write text : Handling SR Unit) during l := by
  unfold writeHeader
  rw [dif_pos final]
  refine ⟨hdur _ rfl, fun _ => ⟨hdur _ (by simp [handlerMark]), fun _ => ⟨rfl, ?_, ?_⟩⟩⟩
  · have hanswers := answers_writeHeader final [text]
    simpa [handlerMark, hl] using hanswers
  · simp [handlerMark]

theorem responds_httpError {error : String} {code : ℕ} (final : 200 ≤ code ∧ code ≤ 599) :
    Responds code (httpError error code : Handling SR Unit) during l := by
  apply emits_call (hdur l rfl) fun _ => rfl
  intro _
  apply emits_call (hdur l rfl) fun _ => rfl
  intro _
  exact responds_writeHeader hl hdur final _

theorem responds_json {code : ℕ} (final : 200 ≤ code ∧ code ≤ 599) (body : String) :
    Responds code (json (some code) body : Handling SR Unit) during l := by
  apply emits_call (hdur l rfl) fun _ => rfl
  intro _
  exact responds_writeHeader hl hdur final _

/-- A body without a status. -/
theorem responds_write (text : String) :
    Responds 200 (write text : Handling SR Unit) during l := by
  refine ⟨hdur _ rfl, fun _ => ⟨rfl, ?_, ?_⟩⟩
  · have hanswers := answers_write text
    simpa [handlerMark, hl] using hanswers
  · simp [handlerMark]

theorem responds_redirect (r : ServerRequest) (url : String) {code : ℕ}
    (final : 200 ≤ code ∧ code ≤ 599) :
    Responds code (redirect r url code : Handling SR Unit) during l := by
  apply emits_call (hdur l rfl) fun _ => rfl
  intro _
  have hrest : Responds code
      (writeHeader code >>= fun _ => if r.method = "GET" then write (foundBody r.path url)
        else pure () : Handling SR Unit) during l := by
    by_cases hget : r.method = "GET"
    · simp only [if_pos hget]
      exact responds_writeHeader hl hdur final _
    · -- the status alone
      simp only [if_neg hget]
      unfold writeHeader
      rw [dif_pos final]
      refine ⟨hdur _ rfl, fun _ => ⟨rfl, ?_, ?_⟩⟩
      · have hanswers := answers_writeHeader final []
        simpa [handlerMark, hl] using hanswers
      · simp [handlerMark]
  by_cases hbody : r.method = "GET" ∨ r.method = "HEAD"
  · simp only [if_pos hbody]
    apply emits_call (hdur l rfl) fun _ => rfl
    exact fun _ => hrest
  · simp only [if_neg hbody]
    exact hrest

end

end

/-! ## The store -/

/-- What the methods of the store do is marked nowhere. -/
theorem emits_onStore {α : Type} {p : Prog SC SR Empty α}
    {during : List (WriterCall ⊕ Mark) → Prop} {l : List (WriterCall ⊕ Mark)} (hl : during l) :
    (onStore p).Emits (handlerMark appMark) during l fun o l' => ∃ a, o = .ok a ∧ l' = l := by
  have hsilent : p.Emits (fun _ => ([] : List (WriterCall ⊕ Mark))) during l
      fun _ l' => l' = l ∧ _ :=
    (Prog.obeys_of_forall (fun _ => trivial) (fun _ => trivial) p).emits_nothing
      (fun _ _ _ => rfl) hl
  refine (Prog.Emits.interpret ?_ hsilent.noThrow).mono ?_
  · intro c l hl
    exact ⟨hl, fun r => ⟨r, rfl, rfl⟩⟩
  · rintro o l' ⟨a, rfl, rfl, -⟩
    exact ⟨a, rfl, rfl⟩

/-! ## The handlers -/

/-- The marks while a handler runs that the limiter has let a request through to. -/
def Inside (l : List (WriterCall ⊕ Mark)) : Prop :=
  unwritten l = [.passed] ∨ unwritten l = [.passed, .redirected]

/-- How a handler ends: it has redirected exactly if it answers with 302, or panicked after it
had counted a redirect. -/
def HandlerEnds (o : Except ServerPanic Unit) (l : List (WriterCall ⊕ Mark)) : Prop :=
  match o with
  | .ok () => ∃ status, status ≠ 429 ∧ status ≠ 201 ∧ Answers status (written l) ∧
      unwritten l = if status = 302 then [.passed, .redirected] else [.passed]
  | .error _ => unwritten l = [.passed, .redirected]

theorem handled_of_responds {status : ℕ} {p : Handling SR Unit} {l : List (WriterCall ⊕ Mark)}
    (h : Responds status p Inside l) (hstatus : status ≠ 429 ∧ status ≠ 201)
    (hl : unwritten l = if status = 302 then [.passed, .redirected] else [.passed]) :
    p.Emits (handlerMark appMark) Inside l HandlerEnds := by
  refine h.mono fun o l' h => ?_
  obtain ⟨rfl, hanswers, hmarks⟩ := h
  exact ⟨status, hstatus.1, hstatus.2, hanswers, hmarks.trans hl⟩

/-- The marks of a request that has just been let through. -/
def letThrough : List (WriterCall ⊕ Mark) := [.inr .passed]

theorem inside_letThrough {l : List (WriterCall ⊕ Mark)}
    (h : unwritten l = unwritten letThrough) : Inside l := .inl h

/-- An answer that is neither a redirect nor one that a handler never gives. -/
theorem handled_of_answer {status : ℕ} {p : Handling SR Unit}
    (h : Responds status p Inside letThrough)
    (hstatus : status ≠ 429 ∧ status ≠ 201 ∧ status ≠ 302) :
    p.Emits (handlerMark appMark) Inside letThrough HandlerEnds := by
  apply handled_of_responds h ⟨hstatus.1, hstatus.2.1⟩
  rw [if_neg hstatus.2.2]
  rfl

theorem handled_httpError (error : String) {code : ℕ} (final : 200 ≤ code ∧ code ≤ 599)
    (hcode : code ≠ 429 ∧ code ≠ 201 ∧ code ≠ 302) :
    (Handling.httpError error code : Handling SR Unit).Emits (handlerMark appMark) Inside
      letThrough HandlerEnds :=
  handled_of_answer (responds_httpError rfl (fun _ => inside_letThrough) final) hcode

/-- The loop of `Shorten` only ever answers with an error, and counts nothing: a link is
counted behind it. The induction is on the attempts. -/
theorem shortenLoop_obeys (req : UrlShortenRequest) (n : ℕ) :
    (shortenLoop req n).Obeys (· ≠ .totalShortenedAdd) fun response =>
      ∀ answer ∈ response, answer = internalServerError := by
  induction n with
  | zero => exact fun answer h => by cases h
  | succ n ih =>
      refine ⟨by rintro ⟨⟩, fun shortKey => ?_⟩
      cases shortKey with
      | error msg => exact fun answer h => (Option.some.inj h).symm
      | ok shortKey =>
          refine ⟨by rintro ⟨⟩, fun found => ?_⟩
          rcases found with err | _ | val
          · exact fun answer h => (Option.some.inj h).symm
          · refine ⟨by rintro ⟨⟩, fun saved => ?_⟩
            cases saved with
            | some err => exact fun answer h => (Option.some.inj h).symm
            | none => exact fun answer h => by cases h
          · exact ih

theorem shorten_obeys (body : Option UrlShortenRequest) :
    (App.shorten body).Obeys (· ≠ .totalShortenedAdd) fun response =>
      ∃ error code, response = .httpError error code ∧ (code = 400 ∨ code = 500) := by
  unfold App.shorten
  cases body with
  | none => exact ⟨_, _, rfl, .inl rfl⟩
  | some req =>
      by_cases hurl : req.url = ""
      · simp only [if_pos hurl]
        exact ⟨_, _, rfl, .inl rfl⟩
      · simp only [if_neg hurl]
        refine (shortenLoop_obeys req 5).bind fun response hresponse => ?_
        cases response with
        | some answer => exact ⟨_, _, hresponse answer rfl, .inr rfl⟩
        | none => exact ⟨_, _, rfl, .inr rfl⟩

variable (app : Application SR)

def shortenMark : Prog.Made HandlerCall HandlerAnswer → List (WriterCall ⊕ Mark)
  | ⟨.totalShortenedAdd, _⟩ => [.inr .shortened]
  | _ => []

theorem emits_onShorten (c : HandlerCall) {l : List (WriterCall ⊕ Mark)} (hl : Inside l) :
    (app.onShorten c).Emits (handlerMark appMark) Inside l fun o l' =>
      ∃ r, o = .ok r ∧ l' = l ++ shortenMark ⟨c, r⟩ := by
  cases c with
  | generateShortKey => exact ⟨hl, fun r => ⟨r, rfl, rfl⟩⟩
  | lookup code =>
      refine Prog.Emits.bind ((emits_onStore hl).mono ?_)
      rintro o l' ⟨⟨val, err⟩, rfl, rfl⟩
      exact ⟨_, rfl, (List.append_nil _).symm⟩
  | save code url expiresAt =>
      refine (emits_onStore hl).mono ?_
      rintro o l' ⟨err, rfl, rfl⟩
      exact ⟨_, rfl, (List.append_nil _).symm⟩
  | totalShortenedAdd => exact ⟨hl, fun r => ⟨r, rfl, rfl⟩⟩

theorem shorten_emits (body : Option UrlShortenRequest) :
    (App.shorten body).Emits shortenMark Inside letThrough fun o l => l = letThrough ∧
      ∀ response, o = .ok response →
        ∃ error code, response = .httpError error code ∧ (code = 400 ∨ code = 500) := by
  refine (shorten_obeys body).emits_nothing (fun c hc answer => ?_) (.inl rfl)
  cases c with
  | totalShortenedAdd => exact absurd rfl hc
  | _ => rfl

theorem handled_Shorten (r : ServerRequest) :
    (app.Shorten r).Emits (handlerMark appMark) Inside letThrough HandlerEnds := by
  refine Prog.Emits.bind ((Prog.Emits.interpret (fun c l hl => emits_onShorten app c hl)
    (shorten_emits (decodeRequest r.body)).noThrow).mono ?_)
  rintro o l' ⟨response, rfl, rfl, hresponse⟩
  obtain ⟨error, code, rfl, hcode⟩ := hresponse response rfl
  apply handled_httpError <;> omega

def redirectMark : Prog.Made RedirectCall RedirectAnswer → List (WriterCall ⊕ Mark)
  | ⟨.totalRedirectsAdd, _⟩ => [.inr .redirected]
  | _ => []

theorem emits_onRedirect (c : RedirectCall) {l : List (WriterCall ⊕ Mark)} (hl : Inside l) :
    (app.onRedirect c).Emits (handlerMark appMark) Inside l fun o l' =>
      ∃ r, o = .ok r ∧ l' = l ++ redirectMark ⟨c, r⟩ := by
  cases c with
  | lookup code =>
      refine (emits_onStore hl).mono ?_
      rintro o l' ⟨val, rfl, rfl⟩
      exact ⟨_, rfl, (List.append_nil _).symm⟩
  | totalRedirectsAdd => exact ⟨hl, fun r => ⟨r, rfl, rfl⟩⟩
  | timeNow => exact ⟨hl, fun r => ⟨r, rfl, rfl⟩⟩
  | send event => exact ⟨hl, fun r => ⟨r, rfl, rfl⟩⟩

/-- A redirect is counted before it can go wrong. -/
def Redirected {ε : Type} (o : Except ε RedirectResponse) (l : List (WriterCall ⊕ Mark)) : Prop :=
  match o with
  | .ok (.httpError _ code) => code ∈ [400, 404, 410, 500] ∧ l = letThrough
  | .ok (.redirect _ code) => code = 302 ∧ l = letThrough ++ [.inr .redirected]
  | .error _ => l = letThrough ++ [.inr .redirected]

theorem redirectHandler_emits (tracker : Interface TrackerPointer) (code clientIP : String) :
    (App.redirectHandler tracker code clientIP).Emits redirectMark Inside letThrough
      Redirected := by
  unfold App.redirectHandler
  by_cases hcode : code = ""
  · rw [if_pos hcode]
    exact ⟨by decide, rfl⟩
  rw [if_neg hcode]
  refine ⟨.inl rfl, fun answer => ?_⟩
  obtain ⟨val, err⟩ := answer
  have hmark : redirectMark ⟨.lookup code, (val, err)⟩ = [] := rfl
  rw [hmark, List.append_nil]
  rcases err with _ | _ | msg
  · cases val with
    | none => exact ⟨by decide, rfl⟩
    | some val =>
        refine ⟨.inl rfl, fun _ => ?_⟩
        cases tracker with
        | nil => exact ⟨rfl, rfl⟩
        | of pointer =>
            -- counted by now; what is left can only answer 302 or panic
            refine ⟨.inr rfl, fun now => ?_⟩
            cases pointer with
            | nil => rfl
            | tracker =>
                refine ⟨.inr rfl, fun sent => ?_⟩
                cases sent with
                | ok _ => exact ⟨rfl, rfl⟩
                | error p => rfl
  · exact ⟨by decide, rfl⟩
  · exact ⟨by decide, rfl⟩

theorem handled_RedirectHandler (values : List (String × String)) (r : ServerRequest) :
    (app.RedirectHandler values r).Emits (handlerMark appMark) Inside letThrough HandlerEnds := by
  have hredirected : ((App.redirectHandler app.tracker (Application.pathValue values)
      r.host).mapThrow ServerPanic.handler).Emits redirectMark Inside letThrough Redirected := by
    apply Prog.Emits.mapThrow
    refine (redirectHandler_emits _ _ _).mono fun o l h => ?_
    cases o with
    | ok response => cases response <;> exact h
    | error p => exact h
  refine Prog.Emits.bind ((Prog.Emits.interpret (fun c l hl => emits_onRedirect app c hl)
    hredirected).mono ?_)
  intro o l h
  cases o with
  | error p =>
      rw [show l = _ from h]
      rfl
  | ok response =>
      cases response with
      | httpError error code =>
          obtain ⟨hcode, rfl⟩ := h
          simp only [List.mem_cons, List.not_mem_nil, or_false] at hcode
          apply handled_httpError <;> omega
      | redirect url code =>
          obtain ⟨rfl, rfl⟩ := h
          exact handled_of_responds (responds_redirect rfl (fun _ h => .inr h) r url (by decide))
            (by decide) rfl

theorem handled_MetricsHandler :
    (Application.MetricsHandler : Handling SR Unit).Emits (handlerMark appMark) Inside letThrough
      HandlerEnds := by
  have hin : Inside letThrough := .inl rfl
  apply emits_call hin fun _ => rfl
  intro _
  apply emits_call hin fun _ => rfl
  intro totalRequests
  apply emits_call hin fun _ => rfl
  intro totalShortened
  apply emits_call hin fun _ => rfl
  intro totalRedirects
  apply emits_call hin fun _ => rfl
  intro cacheHits
  apply emits_call hin fun _ => rfl
  intro cacheMisses
  exact handled_of_answer (responds_write rfl (fun _ => inside_letThrough) _) (by decide)

theorem handled_StatsHandler (values : List (String × String)) :
    (app.StatsHandler values).Emits (handlerMark appMark) Inside letThrough HandlerEnds := by
  unfold Application.StatsHandler
  by_cases hcode : Application.pathValue values = ""
  · rw [if_pos hcode]
    exact handled_httpError _ (by decide) (by decide)
  rw [if_neg hcode]
  by_cases hstore : app.analyticsStore ≠ .nil
  · rw [if_pos hstore]
    apply emits_call (.inl rfl) fun _ => rfl
    intro answer
    cases answer with
    | error msg => exact handled_httpError _ (by decide) (by decide)
    | ok totalClicks =>
        apply emits_call (.inl rfl) fun _ => rfl
        intro _
        exact handled_of_answer (responds_write rfl (fun _ => inside_letThrough) _) (by decide)
  · rw [if_neg hstore]
    exact handled_httpError _ (by decide) (by decide)

/-! ## The middleware -/

/-- **Every route**, by what it wraps. -/
theorem handled_route (values : List (String × String)) (r : ServerRequest) (route : Route) :
    (route.serve app values r).Emits (handlerMark appMark) Inside letThrough HandlerEnds := by
  induction route with
  | healthHandler =>
      exact handled_of_answer (responds_json rfl (fun _ => inside_letThrough) (by decide) _)
        (by decide)
  | shorten => exact handled_Shorten app r
  | redirectHandler => exact handled_RedirectHandler app values r
  | statsHandler => exact handled_StatsHandler app values
  | metricsHandler => exact handled_MetricsHandler
  | ipWhitelist next allowedIPs ih =>
      rw [Route.serve, IPWhitelist]
      by_cases hallowed : r.host ∈ allowedIPs
      · rw [if_pos hallowed]
        exact ih
      · rw [if_neg hallowed]
        exact handled_httpError _ (by decide) (by decide)

theorem handled_serveMux (r : ServerRequest) :
    (serveMux app r).Emits (handlerMark appMark) Inside letThrough HandlerEnds := by
  unfold serveMux
  cases (mainMux.get mainMux_isSome).handler r.mux with
  | some found => exact handled_route app found.2 r found.1
  | none =>
      dsimp only
      by_cases hnone : allowedMethods r.path = []
      · rw [if_pos hnone]
        exact handled_httpError _ (by decide) (by decide)
      · rw [if_neg hnone]
        apply emits_call (.inl rfl) fun _ => rfl
        intro _
        exact handled_httpError _ (by decide) (by decide)

/-- The marks while a request is behind `Logger`. -/
def BehindLogger (l : List (WriterCall ⊕ Mark)) : Prop :=
  unwritten l = [] ∨ unwritten l = [.refused] ∨ Inside l

/-- How a request ends behind `Logger`: refused with 429, or as its handler ends. -/
def LimiterEnds (o : Except ServerPanic Unit) (l : List (WriterCall ⊕ Mark)) : Prop :=
  (o = .ok () ∧ Answers 429 (written l) ∧ unwritten l = [.refused]) ∨ HandlerEnds o l

theorem limited_RateLimiter (r : ServerRequest) :
    (RateLimiter (serveMux app r) r).Emits (handlerMark appMark) BehindLogger [] LimiterEnds := by
  have hin : BehindLogger [] := .inl rfl
  apply emits_call hin fun _ => rfl
  intro now
  apply emits_call hin fun _ => rfl
  intro id
  apply emits_call hin fun _ => rfl
  intro now
  apply emits_call hin fun _ => rfl
  intro _
  refine ⟨hin, fun allowed => ?_⟩
  cases allowed with
  | true =>
      have hnext : (serveMux app r).Emits (handlerMark appMark) BehindLogger letThrough
          HandlerEnds := (handled_serveMux app r).mono_during fun _ h => .inr (.inr h)
      exact hnext.mono fun o l h => .inr h
  | false =>
      have hrefused : Responds 429 (Handling.httpError "Too Many Requests" 429 : Handling SR Unit)
          BehindLogger [.inr .refused] :=
        responds_httpError rfl (fun _ h => .inr (.inl h)) (by decide)
      exact hrefused.mono fun o l h => .inl h

/-! ## Whole requests -/

/-- What a request has left behind before it ends. -/
def Underway (l : List Mark) : Prop :=
  l = [] ∨ l = [.counted] ∨ l = [.counted, .refused] ∨ l = [.counted, .passed] ∨
    l = [.counted, .passed, .redirected]

/-- What a request leaves behind that answers with `w'`, and one that panics. -/
def Accounted (r : ServerRequest) : Except ServerPanic ResponseWriter → List Mark → Prop
  | .ok w', l =>
    (w'.sent = 429 ∧ l = [.counted, .refused, .logged r.method r.path 429]) ∨
      (w'.sent ≠ 429 ∧ w'.sent ≠ 201 ∧
        l = [.counted, .passed] ++ (if w'.sent = 302 then [.redirected] else []) ++
          [.logged r.method r.path w'.sent])
  | .error _, l => l = [.counted, .passed, .redirected]

theorem emits_onDownstream {α : Type} {p : Prog (AppCall SC) (AppAnswer SR) ServerPanic α}
    {during : List Mark → Prop} {l : List Mark} {after : Except ServerPanic α → List Mark → Prop}
    (h : p.Emits appMark during l after) : (onDownstream p).Emits serverMark during l after := by
  refine Prog.Emits.interpret ?_ h
  intro c l hl
  exact ⟨hl, fun r => ⟨r, rfl, rfl⟩⟩

/-- **A request** is counted, then refused or let through, and logged as it was answered. -/
theorem accounted (r : ServerRequest) :
    (wrappedMux app r).Emits serverMark Underway [] (Accounted r) := by
  have hlimited : (RateLimiter (serveMux app r) r).Emits (handlerMark appMark)
      (fun l => Underway ([.counted] ++ unwritten l)) [] LimiterEnds := by
    refine (limited_RateLimiter app r).mono_during fun l h => ?_
    rcases h with h | h | h | h
    all_goals rw [h]
    · exact .inr (.inl rfl)
    · exact .inr (.inr (.inl rfl))
    · exact .inr (.inr (.inr (.inl rfl)))
    · exact .inr (.inr (.inr (.inr rfl)))
  have hserve := Recorder.emits_serve ⟨.new, 200⟩ hlimited
  refine ⟨.inl rfl, fun _ => ⟨.inr (.inl rfl), fun start => ?_⟩⟩
  change (onDownstream (Recorder.serve (RateLimiter (serveMux app r) r) ⟨.new, 200⟩) >>= _).Emits
    serverMark Underway [.counted] _
  refine Prog.Emits.bind ((emits_onDownstream hserve).mono ?_)
  rintro o l ⟨l₂, rfl, h⟩
  cases o with
  | error p =>
      rcases h with ⟨hreturned, -⟩ | hpanicked
      · cases hreturned
      · exact congrArg (Mark.counted :: ·) hpanicked
  | ok rr =>
      obtain ⟨rfl, hended⟩ := h
      have hunderway : Underway ([.counted] ++ unwritten l₂) := by
        rcases hended with ⟨-, -, hl₂⟩ | ⟨status, -, -, -, hl₂⟩
        · rw [hl₂]
          exact .inr (.inr (.inl rfl))
        · rw [hl₂]
          by_cases hfound : status = 302
          · rw [if_pos hfound]
            exact .inr (.inr (.inr (.inr rfl)))
          · rw [if_neg hfound]
            exact .inr (.inr (.inr (.inl rfl)))
      -- the clock again, and the entry
      refine ⟨hunderway, fun now => ⟨?_, fun _ => ?_⟩⟩
      · simpa [serverMark] using hunderway
      rcases hended with ⟨-, hanswers, hl₂⟩ | ⟨status, h429, h201, hanswers, hl₂⟩
      · obtain ⟨hcode, hsent⟩ := hanswers.recorded
        refine .inl ⟨hsent, ?_⟩
        simp [serverMark, hl₂, hcode, ServerRequest.mux]
      · obtain ⟨hcode, hsent⟩ := hanswers.recorded
        refine .inr ⟨by rwa [hsent], by rwa [hsent], ?_⟩
        rw [hsent, hl₂]
        by_cases hfound : status = 302
        · simp [serverMark, hcode, ServerRequest.mux, hfound]
        · simp [serverMark, hcode, ServerRequest.mux, hfound]

end

/-! ## The server -/

section

variable {SS SQ SC SA : Type} {SR : SC → Type}

/-- Requests and jobs under way, and what they share. -/
abbrev ServerWorld (SS SQ SC : Type) (SR : SC → Type) : Type :=
  World (ServerState SS) (ServerTask SQ) (LoggerCall (AppCall SC)) (LoggerAnswer (AppAnswer SR))
    ServerPanic (Option ResponseWriter)

abbrev ServerThread (SS SQ SC : Type) (SR : SC → Type) : Type :=
  Thread (ServerState SS) (ServerTask SQ) (LoggerCall (AppCall SC)) (LoggerAnswer (AppAnswer SR))
    ServerPanic (Option ResponseWriter)

namespace ServerThread

/-- The entry that a request is due: what was asked, and the status that its client got. -/
def answered (t : ServerThread SS SQ SC SR) : Option (String × String × ℕ) :=
  match t.req, t.prog with
  | .request r, .ret (some w) => some (r.method, r.path, w.sent)
  | _, _ => none

def isRequest (t : ServerThread SS SQ SC SR) : Bool :=
  match t.req with
  | .request _ => true
  | .job _ => false

/-- A request that has not ended. -/
def isOpen (t : ServerThread SS SQ SC SR) : Bool := isRequest t && !t.prog.finished

/-- A request that was answered with 302, or has panicked. -/
def hasRedirected (t : ServerThread SS SQ SC SR) : Bool :=
  match t.req, t.prog with
  | .request _, .ret (some w) => w.sent = 302
  | .request _, .throw _ => true
  | _, _ => false

end ServerThread

open ServerThread

def taskUnderway : ServerTask SQ → List Mark → Prop
  | .request _, l => Underway l
  | .job _, l => l = []

def taskAccounted : ServerTask SQ → Except ServerPanic (Option ResponseWriter) → List Mark → Prop
  | .request r, .ok (some w), l => Accounted r (.ok w) l
  | .request _, .ok none, _ => False
  | .request r, .error p, l => Accounted r (.error p) l
  | .job _, _, l => l = []

variable {backing : Backing SS SQ SC SR SA} {tracker : Interface TrackerPointer}
  {analyticsStore : Interface Unit} {admits : ServerRequest → Prop}

theorem task_emits (q : ServerTask SQ) :
    ((backing.server tracker analyticsStore admits).body q).Emits serverMark (taskUnderway q) []
      (taskAccounted q) := by
  cases q with
  | request r =>
      refine Prog.Emits.bind ((accounted _ r).mono fun o l h => ?_)
      cases o with
      | ok w => exact h
      | error p => exact h
  | job q =>
      -- nothing that the store does is marked
      have hsilent : (backing.body q).Emits (fun _ => ([] : List Mark)) (· = []) []
          fun _ l => l = [] ∧ _ :=
        (Prog.obeys_of_forall (fun _ => trivial) (fun _ => trivial) _).emits_nothing
          (fun _ _ _ => rfl) rfl
      refine Prog.Emits.bind ((Prog.Emits.interpret ?_ hsilent.noThrow).mono ?_)
      · intro c l hl
        exact ⟨hl, fun r => ⟨r, rfl, rfl⟩⟩
      · rintro o l ⟨a, rfl, rfl, -⟩
        rfl

/-- The entry of a mark. -/
def Mark.entry : Mark → Option (String × String × ℕ)
  | .logged method path status => some (method, path, status)
  | _ => none

def RequestEntry.key (entry : RequestEntry) : String × String × ℕ :=
  (entry.method, entry.path, entry.status)

/-- What a call does to the counters and the log is what its mark says. -/
structure Recorded (st : ServerState SS) (marks : List Mark) (st' : ServerState SS) : Prop where
  totalRequests : st'.totalRequests = st.totalRequests + marks.count .counted
  totalShortened : st'.totalShortened = st.totalShortened + marks.count .shortened
  totalRedirects : st'.totalRedirects = st.totalRedirects + marks.count .redirected
  log : st'.log.map (·.key) = st.log.map (·.key) ++ marks.filterMap (·.entry)

/-- The counters and the log. -/
def ServerState.accounts (st : ServerState SS) : ℕ × ℕ × ℕ × List RequestEntry :=
  (st.totalRequests, st.totalShortened, st.totalRedirects, st.log)

theorem Recorded.same {st st' : ServerState SS} {marks : List Mark}
    (hmarks : marks = [] ∨ marks = [.passed] ∨ marks = [.refused])
    (h : st'.accounts = st.accounts) : Recorded st marks st' := by
  simp only [ServerState.accounts, Prod.mk.injEq] at h
  obtain ⟨hrequests, hshortened, hredirects, hlog⟩ := h
  rcases hmarks with rfl | rfl | rfl
  all_goals exact ⟨hrequests, hshortened, hredirects, by rw [hlog]; simp [Mark.entry]⟩

/-- **Every call** is recorded as it is marked. -/
theorem recorded_exec {st st' : ServerState SS} {c : LoggerCall (AppCall SC)}
    {r : LoggerAnswer (AppAnswer SR) c} (h : backing.Exec st c r st') :
    Recorded st (serverMark ⟨c, r⟩) st' := by
  cases h with
  | incTotalRequests => exact ⟨rfl, rfl, rfl, by simp [serverMark, Mark.entry]⟩
  | timeNow now => exact Recorded.same (.inl rfl) rfl
  | slogInfo => exact ⟨rfl, rfl, rfl, by simp [serverMark, Mark.entry, RequestEntry.key]⟩
  | downstream h =>
      cases h with
      | totalShortenedAdd => exact ⟨rfl, rfl, rfl, by simp [serverMark, appMark, Mark.entry]⟩
      | totalRedirectsAdd => exact ⟨rfl, rfl, rfl, by simp [serverMark, appMark, Mark.entry]⟩
      | @allow id =>
          apply Recorded.same
          · rw [serverMark]
            cases (st.limiter.allow id st.now).1 with
            | true => exact .inr (.inl rfl)
            | false => exact .inr (.inr rfl)
          · rfl
      | _ =>
          apply Recorded.same
          · exact .inl rfl
          · rfl

theorem recorded_drift {st st' : ServerState SS} (h : backing.Drift st st') :
    Recorded st [] st' := by
  cases h <;>
    · apply Recorded.same
      · exact .inl rfl
      · rfl

/-- What one request or job adds to the accounts. -/
structure AccountsOf (t : ServerThread SS SQ SC SR) (marks : List Mark) : Prop where
  entry : marks.filterMap (·.entry) = (answered t).toList
  counted_le : marks.count .counted ≤ if isRequest t then 1 else 0
  le_counted : (if isRequest t then 1 else 0) ≤ marks.count .counted + if isOpen t then 1 else 0
  redirected_le : marks.count .redirected ≤
    (if hasRedirected t then 1 else 0) + if isOpen t then 1 else 0
  le_redirected : (if hasRedirected t then 1 else 0) ≤ marks.count .redirected
  redirected_counted : marks.count .redirected ≤ marks.count .counted
  shortened : marks.count .shortened = 0

theorem accountsOf {t : ServerThread SS SQ SC SR} {marks : List Mark}
    (h : t.prog.Emitted (taskUnderway t.req) (taskAccounted t.req) marks) :
    AccountsOf t marks := by
  obtain ⟨q, prog, past⟩ := t
  cases q with
  | job q =>
      have hnil : marks = [] := by cases prog <;> exact h
      rw [hnil]
      constructor <;> simp [answered, isRequest, isOpen, hasRedirected]
  | request r =>
      cases prog with
      | call c k =>
          rcases h with rfl | rfl | rfl | rfl | rfl
          all_goals
            constructor <;>
              simp [answered, isRequest, isOpen, hasRedirected, Prog.finished, Mark.entry]
      | throw p =>
          have hmarks : marks = [.counted, .passed, .redirected] := h
          rw [hmarks]
          constructor <;>
            simp [answered, isRequest, isOpen, hasRedirected, Prog.finished, Mark.entry]
      | ret w =>
          cases w with
          | none => exact h.elim
          | some w =>
              -- refused by the limiter, or let through
              rcases h with ⟨hsent, rfl⟩ | ⟨h429, h201, rfl⟩
              · constructor <;>
                  simp [answered, isRequest, isOpen, hasRedirected, Prog.finished, Mark.entry,
                    hsent]
              · by_cases hfound : w.sent = 302
                · rw [if_pos hfound]
                  constructor <;>
                    simp [answered, isRequest, isOpen, hasRedirected, Prog.finished, Mark.entry,
                      hfound]
                · rw [if_neg hfound]
                  constructor <;>
                    simp [answered, isRequest, isOpen, hasRedirected, Prog.finished, Mark.entry,
                      hfound]

variable {store : SS} {analyticsChan : Chan ClickEvent} {w : ServerWorld SS SQ SC SR}

section

variable (hw : (backing.server tracker analyticsStore admits).Reach anyCall
  (.start store analyticsChan) w)

include hw

theorem accountsOf_reach {t : ServerThread SS SQ SC SR} (ht : t ∈ w.threads) :
    AccountsOf t (t.marks serverMark) := accountsOf (hw.emits task_emits ht)

/-- **The log** has the entry of every request that was answered, and no other. -/
theorem log_perm : (w.env.log.map (·.key)).Perm (w.threads.filterMap answered) := by
  have hlog : (w.env.log.map (·.key)).Perm
      ([] ++ (w.marks serverMark).filterMap (·.entry)) := by
    refine hw.recorded (fun e c r e' h => (recorded_exec h).log) fun e e' h => ?_
    have hsame := (recorded_drift h).log
    rwa [List.filterMap_nil, List.append_nil] at hsame
  have hentries : (w.marks serverMark).filterMap (·.entry) = w.threads.filterMap answered := by
    rw [World.marks, List.filterMap_flatMap, List.filterMap_eq_flatMap_toList]
    apply List.flatMap_congr
    intro t ht
    exact (accountsOf_reach hw ht).entry
  rwa [List.nil_append, hentries] at hlog

theorem totalRequests_eq : w.env.totalRequests = (w.marks serverMark).count .counted := by
  have hcount : w.env.totalRequests = 0 + (w.marks serverMark).count .counted :=
    hw.counted (fun e c r e' h => (recorded_exec h).totalRequests)
      fun e e' h => (recorded_drift h).totalRequests
  rwa [Nat.zero_add] at hcount

theorem totalRedirects_eq : w.env.totalRedirects = (w.marks serverMark).count .redirected := by
  have hcount : w.env.totalRedirects = 0 + (w.marks serverMark).count .redirected :=
    hw.counted (fun e c r e' h => (recorded_exec h).totalRedirects)
      fun e e' h => (recorded_drift h).totalRedirects
  rwa [Nat.zero_add] at hcount

theorem totalShortened_eq : w.env.totalShortened = (w.marks serverMark).count .shortened := by
  have hcount : w.env.totalShortened = 0 + (w.marks serverMark).count .shortened :=
    hw.counted (fun e c r e' h => (recorded_exec h).totalShortened)
      fun e e' h => (recorded_drift h).totalShortened
  rwa [Nat.zero_add] at hcount

end

/-- What the counters and the log say about the requests. -/
structure Accounts (w : ServerWorld SS SQ SC SR) : Prop where
  log : (w.env.log.map (·.key)).Perm (w.threads.filterMap answered)
  requests : w.env.totalRequests ≤ w.threads.countP isRequest
  requests_open : w.threads.countP isRequest ≤ w.env.totalRequests + w.threads.countP isOpen
  redirects : w.threads.countP hasRedirected ≤ w.env.totalRedirects
  redirects_open : w.env.totalRedirects ≤
    w.threads.countP hasRedirected + w.threads.countP isOpen
  redirects_requests : w.env.totalRedirects ≤ w.env.totalRequests
  shortened : w.env.totalShortened = 0

/-- **The accounts are right at every moment**, but for the requests that have not ended. -/
theorem server_accounts
    (hw : (backing.server tracker analyticsStore admits).Reach anyCall
      (.start store analyticsChan) w) :
    Accounts w := by
  have hthreads : ∀ t ∈ w.threads, AccountsOf t (t.marks serverMark) :=
    fun t ht => accountsOf_reach hw ht
  have hnone : w.threads.countP (fun _ => false) = 0 := by rw [List.countP_false]; rfl
  constructor
  · exact log_perm hw
  · rw [totalRequests_eq hw, ← Nat.add_zero (w.threads.countP isRequest), ← hnone]
    exact count_flatMap_le fun t ht => (hthreads t ht).counted_le
  · rw [totalRequests_eq hw]
    exact countP_le_count_flatMap fun t ht => (hthreads t ht).le_counted
  · rw [totalRedirects_eq hw, ← Nat.add_zero (List.count _ _), ← hnone]
    exact countP_le_count_flatMap fun t ht => (hthreads t ht).le_redirected
  · rw [totalRedirects_eq hw]
    exact count_flatMap_le fun t ht => (hthreads t ht).redirected_le
  · rw [totalRedirects_eq hw, totalRequests_eq hw]
    exact count_flatMap_le_count fun t ht => (hthreads t ht).redirected_counted
  · rw [totalShortened_eq hw, World.marks, List.count_eq_zero, List.mem_flatMap]
    rintro ⟨t, ht, hmark⟩
    exact List.count_eq_zero.mp (hthreads t ht).shortened hmark

end

/-! ### A run -/

/-- A link is posted, -/
def postLink : ServerRequest :=
  ⟨"POST", "/shorten", "192.0.2.1:50000", "\x7b\"url\": \"https://example.com\"\x7d"⟩

/-- and asked for. -/
def getLink (remoteAddr : String) : ServerRequest := ⟨"GET", "/aaaaaaa", remoteAddr, ""⟩

/-- Two clients ask for the link; the second redirect is not answered yet. -/
def shortenedRun (admits : ServerRequest → Prop) : ServerWorld Env Request Call Answer :=
  ((goCache (600 * 1000000000)).backing.server (.of .tracker) (.of ()) admits).playAll
    ((goCache (600 * 1000000000)).backing.answer answer) ⟨.start .empty (.make 1000), []⟩
    ([.arrive (.request postLink), .arrive (.request (getLink "192.0.2.1:50001")),
      .arrive (.request (getLink "192.0.2.2:50000"))] ++
      List.replicate 24 (.call 0) ++ List.replicate 20 (.call 1) ++ List.replicate 13 (.call 2))

theorem shortenedRun_reach {admits : ServerRequest → Prop} (hpost : admits postLink)
    (hget : ∀ remoteAddr, admits (getLink remoteAddr)) :
    ((goCache (600 * 1000000000)).backing.server (.of .tracker) (.of ()) admits).Reach anyCall
      (.start .empty (.make 1000)) (shortenedRun admits) := by
  refine System.reach_play (Backing.exec_answer _ exec_answer) (fun m hm => ?_)
    (System.meets_anyCall _ _)
  simp only [List.mem_append, List.mem_cons, List.not_mem_nil, or_false, List.mem_replicate] at hm
  have hcode : CleanPath "/aaaaaaa" := by decide +kernel
  rcases hm with (((rfl | rfl | rfl) | ⟨-, rfl⟩) | ⟨-, rfl⟩) | ⟨-, rfl⟩
  · exact ⟨by decide +kernel, hpost⟩
  · exact ⟨hcode, hget _⟩
  · exact ⟨hcode, hget _⟩
  all_goals trivial

/-- Two are answered, and counted and logged; the third is counted. -/
theorem server_accounts_example :
    Accounts (shortenedRun fun _ => True) ∧
      (shortenedRun fun _ => True).threads.filterMap ServerThread.answered =
        [("POST", "/shorten", 500), ("GET", "/aaaaaaa", 302)] ∧
      (shortenedRun fun _ => True).env.totalRequests = 3 ∧
      (shortenedRun fun _ => True).env.totalRedirects = 2 :=
  ⟨server_accounts (shortenedRun_reach trivial fun _ => trivial), by decide +kernel⟩

end EngineeringLab.Shortener
