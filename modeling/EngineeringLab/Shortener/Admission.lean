/-
The limiter comes first.

In every interleaving, what a request calls starts with `Logger`'s counting and with the limiter:
the entry of its own address is looked up and stamped, and `Allow` is asked about it. Only behind
an `Allow` that said yes is anything else called: the store, the generator, the tracker, the
analytics table, the counters. A request is answered with 429 exactly if `Allow` said no
(`admission`).

The middleware is set up once, in `main`: `Logger` outside, the limiter inside it, the mux
inside that. So the limiter's steps precede those of every handler, and a request that it
refuses gets 429 from the limiter itself, without a call to anything behind it.

That is a statement about the order of a request's own calls, and it holds at any moment of
any run, whether the request has ended or not (`AskedFirst`). The limiter's entry is asked
about the address that `clientIP` makes of the request, and about no other. Several requests
of one address may be between the lookup and `Allow` at the same time; how many of them can
be let through is `Shortener.RateLimitRaces`.
-/
import EngineeringLab.Shortener.Accounts

set_option autoImplicit false

open Concurrency Web

namespace EngineeringLab.Shortener

/-! ## The calls of a request, in order -/

section

variable {SC : Type} {SR : SC → Type}

/-- A call with its answer. -/
abbrev Called (SR : SC → Type) : Type :=
  Prog.Made (LoggerCall (AppCall SC)) (LoggerAnswer (AppAnswer SR))

/-- What only the handlers call. -/
def BehindLimiter : LoggerCall (AppCall SC) → Prop
  | .downstream c => match c with
    | .setHeader .. | .limiterNow | .loadOrStore .. | .see .. | .allow _ => False
    | _ => True
  | _ => False

/-- The calls up to the answer of `Allow`. -/
def admissionCalls (ip : String) (start : ℤ) (now : ℚ) (id : ℕ) (seen : ℚ) (allowed : Bool) :
    List (Called SR) :=
  [⟨.incTotalRequests, ()⟩, ⟨.timeNow, start⟩, ⟨.downstream .limiterNow, now⟩,
    ⟨.downstream (.loadOrStore ip now), id⟩, ⟨.downstream .limiterNow, seen⟩,
    ⟨.downstream (.see id seen), ()⟩, ⟨.downstream (.allow id), allowed⟩]

/-- The limiter has been asked, and nothing behind it is called if it said no. -/
def Decided (ip : String) (calls : List (Called SR)) : Prop :=
  ∃ start now id seen allowed rest, calls = admissionCalls ip start now id seen allowed ++ rest ∧
    (allowed = false → ∀ m ∈ rest, ¬ BehindLimiter m.1)

/-- The limiter is asked first. -/
def AskedFirst (ip : String) (calls : List (Called SR)) : Prop :=
  (∃ start now id seen allowed, calls <+: admissionCalls ip start now id seen allowed) ∨
    Decided ip calls

theorem Decided.snoc {ip : String} {calls : List (Called SR)} (h : Decided ip calls)
    {m : Called SR} (hm : ¬ BehindLimiter m.1) : Decided ip (calls ++ [m]) := by
  obtain ⟨start, now, id, seen, allowed, rest, rfl, hrest⟩ := h
  refine ⟨start, now, id, seen, allowed, rest ++ [m], List.append_assoc _ _ _, ?_⟩
  intro hno m' hm'
  rcases List.mem_append.mp hm' with h | h
  · exact hrest hno m' h
  · rwa [List.mem_singleton.mp h]

/-- A call behind `Logger`, as the server makes it. -/
def behindLogger (m : Prog.Made (AppCall SC) (AppAnswer SR)) : List (Called SR) :=
  [⟨.downstream m.1, m.2⟩]

/-- What has been called when `l` is what the limiter and what is behind it have called. -/
abbrev fromStart (start : ℤ) (l : List (WriterCall ⊕ Called SR)) : List (Called SR) :=
  [⟨.incTotalRequests, ()⟩, ⟨.timeNow, start⟩] ++ unwritten l

/-- Before the answer of `Allow`. -/
theorem askedFirst_take (ip : String) (start : ℤ) (now : ℚ) (id : ℕ) (seen : ℚ) (n : ℕ) :
    AskedFirst ip ((admissionCalls ip start now id seen false : List (Called SR)).take n) :=
  .inl ⟨start, now, id, seen, false, List.take_prefix _ _⟩

open Handling in
/-- An error is answered without any call that the limiter guards. -/
theorem httpError_obeys (error : String) (code : ℕ) :
    (httpError error code : Handling SR Unit).Obeys
      (fun c => ∀ c', c = .other c' → ¬ BehindLimiter (.downstream c')) fun _ => True := by
  have hheader : ∀ (key value : String) (c' : AppCall SC),
      (.other (.setHeader key value) : Web.HandlerCall (AppCall SC)) = .other c' →
        ¬ BehindLimiter (.downstream c') := by
    rintro key value c' ⟨⟩
    exact id
  have hwriter : ∀ (c : WriterCall) (c' : AppCall SC),
      (.writer c : Web.HandlerCall (AppCall SC)) = .other c' →
        ¬ BehindLimiter (.downstream c') := by
    rintro c c' ⟨⟩
  unfold httpError writeHeader
  refine ⟨hheader _ _, fun _ => ⟨hheader _ _, fun _ => ?_⟩⟩
  by_cases hcode : 200 ≤ code ∧ code ≤ 599
  · rw [dif_pos hcode]
    exact ⟨hwriter _, fun _ => ⟨hwriter _, fun _ => trivial⟩⟩
  · rw [dif_neg hcode]
    trivial

variable (app : Application SR) (r : ServerRequest)

theorem decided_RateLimiter (next : Handling SR Unit) (start : ℤ) :
    (RateLimiter next r).Emits (handlerMark behindLogger)
      (fun l => AskedFirst (clientIP r.remoteAddr) (fromStart start l)) [] fun _ l =>
        Decided (clientIP r.remoteAddr) (fromStart start l) := by
  refine ⟨askedFirst_take _ start 0 0 0 2, fun now => ⟨askedFirst_take _ start now 0 0 3,
    fun id => ⟨askedFirst_take _ start now id 0 4, fun seen => ⟨askedFirst_take _ start now id seen
      5, fun _ => ⟨askedFirst_take _ start now id seen 6, fun allowed => ?_⟩⟩⟩⟩⟩
  -- up to the answer of `Allow` the calls are a fixed list, and from then on it has decided
  have hasked : ∀ l : List (WriterCall ⊕ Called SR), Decided (clientIP r.remoteAddr)
      (fromStart start l) → AskedFirst (clientIP r.remoteAddr) (fromStart start l) :=
    fun l h => .inr h
  have hdecided : ∀ rest : List (Called SR), (allowed = false → ∀ m ∈ rest, ¬ BehindLimiter m.1) →
      Decided (clientIP r.remoteAddr)
        (admissionCalls (clientIP r.remoteAddr) start now id seen allowed ++ rest) :=
    fun rest hrest => ⟨start, now, id, seen, allowed, rest, rfl, hrest⟩
  cases allowed with
  | false =>
      -- the 429 is written by the limiter itself
      have hrefused : ∀ l, Decided (clientIP r.remoteAddr) (fromStart start l) →
          (Handling.httpError "Too Many Requests" 429 : Handling SR Unit).Emits
            (handlerMark behindLogger)
            (fun l => AskedFirst (clientIP r.remoteAddr) (fromStart start l)) l fun o l' =>
              Decided (clientIP r.remoteAddr) (fromStart start l') ∧ ∀ a, o = .ok a → True := by
        refine fun l hl => (httpError_obeys _ _).emits hl hasked ?_
        intro c hc answer l' hl'
        cases c with
        | writer c => simpa [fromStart, handlerMark] using hl'
        | other c =>
            have hnext := hl'.snoc (m := ⟨.downstream c, answer⟩) (hc c rfl)
            simpa [fromStart, handlerMark, behindLogger] using hnext
      refine (hrefused _ ?_).mono fun o l h => h.1
      exact hdecided [] fun _ m hm => by cases hm
  | true =>
      have hnext : ∀ l, (∀ x, Decided (clientIP r.remoteAddr) (fromStart start (l ++ x))) →
          next.Emits (handlerMark behindLogger)
            (fun l => AskedFirst (clientIP r.remoteAddr) (fromStart start l)) l fun _ l' =>
              Decided (clientIP r.remoteAddr) (fromStart start l') := by
        refine fun l hl => (Prog.emits_append (fun x => hasked _ (hl x)) next).mono ?_
        rintro o l' ⟨x, rfl⟩
        exact hl x
      apply hnext
      exact fun x => hdecided (unwritten x) fun h => by cases h

theorem askedFirst_wrappedMux :
    (wrappedMux app r).Emits (fun m => [m]) (AskedFirst (clientIP r.remoteAddr)) [] fun _ l =>
      AskedFirst (clientIP r.remoteAddr) l := by
  refine ⟨askedFirst_take _ 0 0 0 0 0, fun _ => ⟨askedFirst_take _ 0 0 0 0 1, fun start => ?_⟩⟩
  change Prog.Emits (fun m => [m]) (AskedFirst (clientIP r.remoteAddr))
    (onDownstream (Recorder.serve (RateLimiter (serveMux app r) r) ⟨.new, 200⟩) >>= _)
    [⟨.incTotalRequests, ()⟩, ⟨.timeNow, start⟩] _
  have hserve := Recorder.emits_serve ⟨.new, 200⟩ (decided_RateLimiter r (serveMux app r) start)
  have hdownstream : (onDownstream (Recorder.serve (RateLimiter (serveMux app r) r)
      ⟨.new, 200⟩)).Emits (fun m => [m]) (AskedFirst (clientIP r.remoteAddr))
        [⟨.incTotalRequests, ()⟩, ⟨.timeNow, start⟩]
        fun _ l => Decided (clientIP r.remoteAddr) l := by
    refine Prog.Emits.interpret ?_ (hserve.mono ?_)
    · intro c l hl
      exact ⟨hl, fun answer => ⟨answer, rfl, rfl⟩⟩
    · rintro o l ⟨l₂, rfl, h⟩
      cases o with
      | ok rr => exact h.2
      | error p => exact h
  refine Prog.Emits.bind (hdownstream.mono fun o l h => ?_)
  cases o with
  | error p => exact .inr h
  | ok rr =>
      -- Logger's own clock and entry
      refine ⟨.inr h, fun now => ?_⟩
      have hnow : Decided (clientIP r.remoteAddr) (l ++ [⟨.timeNow, now⟩]) := h.snoc id
      exact ⟨.inr hnow, fun _ => .inr (hnow.snoc id)⟩

end

/-! ## Every interleaving -/

section

variable {SS SQ SC SA : Type} {SR : SC → Type} {backing : Backing SS SQ SC SR SA}
  {tracker : Interface TrackerPointer} {analyticsStore : Interface Unit}
  {admits : ServerRequest → Prop} {store : SS} {analyticsChan : Chan ClickEvent}
  {w : ServerWorld SS SQ SC SR}

def taskAsked : ServerTask SQ → List (Called SR) → Prop
  | .request r, calls => AskedFirst (clientIP r.remoteAddr) calls
  | .job _, _ => True

theorem task_asked (q : ServerTask SQ) :
    ((backing.server tracker analyticsStore admits).body q).Emits (fun m => [m]) (taskAsked q) []
      fun _ => taskAsked q := by
  cases q with
  | request r =>
      refine Prog.Emits.bind ((askedFirst_wrappedMux _ r).mono fun o l h => ?_)
      cases o <;> exact h
  | job q => exact (Prog.emits_append (fun _ => trivial) _).mono fun _ _ _ => trivial

/-- The mark of a refusal. -/
theorem refused_mem_serverMark {m : Called SR} :
    .refused ∈ serverMark m ↔ ∃ id, m = ⟨.downstream (.allow id), false⟩ := by
  obtain ⟨c, answer⟩ := m
  constructor
  · intro h
    cases c with
    | downstream c =>
        cases c with
        | allow id =>
            cases answer with
            | false => exact ⟨id, rfl⟩
            | true => simp [serverMark, appMark] at h
        | _ => simp [serverMark, appMark] at h
    | _ => simp [serverMark] at h
  · rintro ⟨id, heq⟩
    rw [heq]
    simp [serverMark, appMark]

/-- **The limiter comes first**, and 429 is its answer alone. -/
theorem admission
    (hw : (backing.server tracker analyticsStore admits).Reach anyCall
      (.start store analyticsChan) w)
    {t : ServerThread SS SQ SC SR} (ht : t ∈ w.threads) {r : ServerRequest}
    (hreq : t.req = .request r) :
    AskedFirst (clientIP r.remoteAddr) t.past.calls.reverse ∧
      ∀ w', t.prog = .ret (some w') →
        (w'.sent = 429 ↔ ∃ id, ⟨.downstream (.allow id), false⟩ ∈ t.past.calls) := by
  constructor
  · -- every call is a mark of its own, so the marks are the calls in their order
    have hcalls := hw.emits task_asked ht
    have hmarks : t.marks (fun m => [m]) = t.past.calls.reverse := by simp [Thread.marks]
    rw [hmarks, hreq] at hcalls
    cases hprog : t.prog <;>
      · rw [hprog] at hcalls
        exact hcalls
  · -- the answer, by the marks that the accounts of the server keep
    intro w' hprog
    have hmarks := hw.emits task_emits ht
    rw [hprog, hreq] at hmarks
    have hrefused : w'.sent = 429 ↔ .refused ∈ t.marks serverMark := by
      rcases hmarks with ⟨hsent, hmarks⟩ | ⟨hsent, -, hmarks⟩
      · simp [hsent, hmarks]
      · by_cases hfound : w'.sent = 302 <;> simp [hsent, hmarks, hfound]
    rw [hrefused, Thread.marks, List.mem_flatMap]
    constructor
    · rintro ⟨m, hm, hmark⟩
      obtain ⟨id, rfl⟩ := refused_mem_serverMark.mp hmark
      exact ⟨id, List.mem_reverse.mp hm⟩
    · rintro ⟨id, hm⟩
      exact ⟨_, List.mem_reverse.mpr hm, refused_mem_serverMark.mpr ⟨id, rfl⟩⟩

end

/-- The first redirect of the run asked the limiter about its own client. -/
theorem admission_example :
    ∃ t ∈ (shortenedRun fun _ => True).threads, t.req = .request (getLink "192.0.2.1:50001") ∧
      AskedFirst "192.0.2.1" t.past.calls.reverse := by
  have hthread : (shortenedRun fun _ => True).threads[1]?.map (·.req) =
      some (.request (getLink "192.0.2.1:50001")) := by decide +kernel
  obtain ⟨t, ht, hreq⟩ := Option.map_eq_some_iff.mp hthread
  have hmem := List.mem_of_getElem? ht
  have hip : clientIP (getLink "192.0.2.1:50001").remoteAddr = "192.0.2.1" := by decide +kernel
  have hasked := (admission (shortenedRun_reach trivial fun _ => trivial) hmem hreq).1
  rw [hip] at hasked
  exact ⟨t, hmem, hreq, hasked⟩

end EngineeringLab.Shortener
