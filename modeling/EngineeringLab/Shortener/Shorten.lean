/-
`App.Shorten` (`handler/handler.go`) and whether its reply agrees with the store.

The retry loop declares its own `shortKey` with `:=`, so the code it generates, and
the `""` it assigns after a collision, never reach the `shortKey` declared before
the loop. The reply is decided from that outer variable, which stays empty: a
request that stored its link answers 500 like one that failed
(`shorten_reply_agrees_iff`).

The store is any implementation of `handler.Store`: what each attempt generates,
looks up and saves is a parameter (`Backend`).

The loop has five ways to end: the generator fails, the lookup fails, the save fails, the
save succeeds, or five codes in a row are taken. `shortenLoop_spec` says of each what it
leaves: a link is saved in one of them only, and in that one the loop is left by `break`, so
that the code after the loop decides the reply. In the other four nothing was stored, and
500 is the right answer.
-/
import EngineeringLab.Shortener.Store

set_option autoImplicit false

open Concurrency

namespace EngineeringLab.Shortener

/-! ## The handler -/

/-- `urlShortenRequest`. -/
structure UrlShortenRequest where
  url : String
  expiresAt : Option Time
  deriving DecidableEq, Repr

/-- What `Shorten` writes to the client: `http.Error`, or 201 with a short URL. -/
inductive Response where
  | httpError (error : String) (code : ℕ)
  | created (shortURL : String)
  deriving DecidableEq, Repr

def Response.status : Response → ℕ
  | .httpError _ code => code
  | .created _ => 201

def internalServerError : Response := .httpError "Internal server error" 500

/-- The calls of the handler. -/
inductive HandlerCall : Type where
  | generateShortKey
  | lookup (code : String)
  | save (code url : String) (expiresAt : Option Time)
  | totalShortenedAdd

abbrev HandlerAnswer : HandlerCall → Type
  | .generateShortKey => Except String String
  | .lookup _ => Except StoreError (Option LookupResult)
  | .save .. => Option StoreError
  | .totalShortenedAdd => Unit

abbrev Handler (α : Type) : Type := Prog HandlerCall HandlerAnswer Empty α

def generateShortKey : Handler (Except String String) := .call .generateShortKey .ret
def storeLookup (code : String) : Handler (Except StoreError (Option LookupResult)) :=
  .call (.lookup code) .ret
def storeSave (code url : String) (expiresAt : Option Time) : Handler (Option StoreError) :=
  .call (.save code url expiresAt) .ret
def totalShortenedAdd : Handler Unit := .call .totalShortenedAdd .ret

/-- The rounds of the retry loop that are left: a response when the handler returned
from inside the loop, `none` when the loop was left by `break` or by its bound. -/
def shortenLoop (req : UrlShortenRequest) : ℕ → Handler (Option Response)
  | 0 => return none
  | n + 1 => do
    match ← generateShortKey with
    | .error _ => return some internalServerError
    | .ok shortKey =>
      match ← storeLookup shortKey with
      | .error _ => return some internalServerError
      | .ok none =>
        match ← storeSave shortKey req.url req.expiresAt with
        | some _ => return some internalServerError
        | none => return none
      -- `shortKey = ""` clears the variable of this round
      | .ok (some _) => shortenLoop req n

/-- `App.Shorten`. The body is what `Decode` made of it, if it did. -/
def App.shorten (body : Option UrlShortenRequest) : Handler Response := do
  match body with
  | none => return .httpError "Invalid JSON" 400
  | some req =>
    if req.url = "" then
      return .httpError "URL empty" 400
    else
      let shortKey := ""
      match ← shortenLoop req 5 with
      | some response => return response
      | none =>
        if shortKey ≠ "" then
          totalShortenedAdd
          return .created ("http://localhost:8000/" ++ shortKey)
        else
          return internalServerError

/-! ## Running it -/

/-- A store with state `σ` and a generator, as one request meets them: what the
`i`-th attempt generates, and what its calls give on the state they find. A call
that fails changes nothing. -/
structure Backend (σ : Type) where
  generate : ℕ → Except String String
  lookup : ℕ → σ → String → Except StoreError (Option LookupResult)
  save : ℕ → σ → String → String → Option Time → Except StoreError σ

/-- The state of one request's run. `saved` is a ghost: the successful saves. -/
structure ShortenState (σ : Type) where
  store : σ
  attempt : ℕ
  totalShortened : ℕ
  saved : List (String × String × Option Time)

/-- The state a request finds. -/
def ShortenState.start {σ : Type} (store : σ) (totalShortened : ℕ) : ShortenState σ :=
  ⟨store, 0, totalShortened, []⟩

def Backend.exec {σ : Type} (B : Backend σ) :
    (c : HandlerCall) → ShortenState σ → HandlerAnswer c × ShortenState σ
  | .generateShortKey, st =>
    (B.generate (st.attempt + 1), { st with attempt := st.attempt + 1 })
  | .lookup code, st => (B.lookup st.attempt st.store code, st)
  | .save code url expiresAt, st =>
    match B.save st.attempt st.store code url expiresAt with
    | .error err => (some err, st)
    | .ok store =>
      (none, { st with store := store, saved := (code, url, expiresAt) :: st.saved })
  | .totalShortenedAdd, st => ((), { st with totalShortened := st.totalShortened + 1 })

/-- The reply and the state after `App.Shorten`. -/
def Backend.shorten {σ : Type} (B : Backend σ) (body : Option UrlShortenRequest)
    (st : ShortenState σ) : Except Empty Response × ShortenState σ :=
  (App.shorten body).run B.exec st

/-- A body that is not accepted is answered with 400, and nothing is called. -/
theorem shorten_rejected {σ : Type} (B : Backend σ) {body : Option UrlShortenRequest}
    (h : ∀ req, body = some req → req.url = "") (st : ShortenState σ) :
    ∃ error, B.shorten body st = (.ok (.httpError error 400), st) := by
  cases body with
  | none => exact ⟨_, rfl⟩
  | some req =>
      refine ⟨"URL empty", ?_⟩
      simp [Backend.shorten, App.shorten, h req rfl]

/-! ## What the loop does -/

section

variable {σ : Type} (B : Backend σ) (s : σ) (req : UrlShortenRequest)

/-- Attempt `i` generates a code that is taken. -/
def Collides (i : ℕ) : Prop :=
  ∃ code val, B.generate i = .ok code ∧ B.lookup i s code = .ok (some val)

/-- Attempt `i` generates a code that is free, and the save under it succeeds. -/
def Stores (i : ℕ) (code : String) (s' : σ) : Prop :=
  B.generate i = .ok code ∧ B.lookup i s code = .ok none ∧
    B.save i s code req.url req.expiresAt = .ok s'

/-- One of the `n` attempts after the `k`-th stores the link, and all before it collide. -/
def StoresWithin (k n : ℕ) : Prop :=
  ∃ i, k < i ∧ i ≤ k + n ∧ (∀ j, k < j → j < i → Collides B s j) ∧
    ∃ code s', Stores B s req i code s'

variable {B s req}

theorem storesWithin_succ {k n : ℕ} : StoresWithin B s req k (n + 1) ↔
    (∃ code s', Stores B s req (k + 1) code s') ∨
      Collides B s (k + 1) ∧ StoresWithin B s req (k + 1) n := by
  constructor
  · rintro ⟨i, h1, h2, hall, hst⟩
    by_cases hi : i = k + 1
    · subst hi
      exact .inl hst
    · exact .inr ⟨hall _ (by omega) (by omega), i, by omega, by omega,
        fun j h3 h4 => hall j (by omega) h4, hst⟩
  · rintro (hst | ⟨hcol, i, h1, h2, hall, hst⟩)
    · exact ⟨k + 1, by omega, by omega, fun j h3 h4 => by omega, hst⟩
    · refine ⟨i, by omega, by omega, fun j h3 h4 => ?_, hst⟩
      by_cases hj : j = k + 1
      · rwa [hj]
      · exact hall j (by omega) h4

/-- **The loop.** Either one save succeeded and the loop was left by `break`, or
nothing changed but the number of attempts. -/
theorem shortenLoop_spec (B : Backend σ) (req : UrlShortenRequest) (n : ℕ) (st : ShortenState σ) :
    let out := (shortenLoop req n).run B.exec st
    (StoresWithin B st.store req st.attempt n ∧ out.1 = .ok none ∧
        out.2.totalShortened = st.totalShortened ∧
        ∃ code, out.2.saved = (code, req.url, req.expiresAt) :: st.saved) ∨
      (¬ StoresWithin B st.store req st.attempt n ∧
        (out.1 = .ok none ∨ out.1 = .ok (some internalServerError)) ∧
        out.2.totalShortened = st.totalShortened ∧ out.2.saved = st.saved ∧
        out.2.store = st.store) := by
  induction n generalizing st with
  | zero =>
      refine .inr ⟨?_, .inl rfl, rfl, rfl, rfl⟩
      rintro ⟨i, h1, h2, -⟩
      omega
  | succ n ih =>
      simp only [storesWithin_succ, Stores, Collides]
      cases hgen : B.generate (st.attempt + 1) with
      | error msg => simp [shortenLoop, generateShortKey, Backend.exec, hgen]
      | ok code =>
          cases hlook : B.lookup (st.attempt + 1) st.store code with
          | error err =>
              simp [shortenLoop, generateShortKey, storeLookup, Backend.exec, hgen, hlook]
          | ok val =>
              cases val with
              | none =>
                  cases hsave : B.save (st.attempt + 1) st.store code req.url req.expiresAt <;>
                    simp [shortenLoop, generateShortKey, storeLookup, storeSave, Backend.exec,
                      hgen, hlook, hsave]
              | some v =>
                  -- a collision: the store is as it was, and one attempt fewer is left
                  have hrun : (shortenLoop req (n + 1)).run B.exec st =
                      (shortenLoop req n).run B.exec { st with attempt := st.attempt + 1 } := by
                    simp [shortenLoop, generateShortKey, storeLookup, Backend.exec, hgen, hlook]
                  simpa [hrun, hlook] using ih { st with attempt := st.attempt + 1 }

end

/-! ## The reply -/

/-- The reply to `req` says what happened to the store on the way from `st` to `st'`. -/
structure ReplyAgrees {σ : Type} (req : UrlShortenRequest) (st st' : ShortenState σ)
    (reply : Response) : Prop where
  created : ∀ code, reply = .created ("http://localhost:8000/" ++ code) ↔
    (code, req.url, req.expiresAt) ∈ st'.saved
  unchanged : reply.status ≠ 201 → st'.store = st.store
  counted : st'.totalShortened = st.totalShortened + if st'.saved = [] then 0 else 1

section

variable {σ : Type} {B : Backend σ} {req : UrlShortenRequest} {s : σ} {total : ℕ}

/-- Whatever the loop did, the reply is 500: the variable that the reply is decided
from is never assigned. -/
theorem shorten_response (hurl : req.url ≠ "") (st : ShortenState σ) :
    B.shorten (some req) st = (.ok internalServerError, ((shortenLoop req 5).run B.exec st).2) := by
  have hrun : B.shorten (some req) st =
      (shortenLoop req 5 >>= fun r => match r with
        | some response => pure response
        | none => pure internalServerError : Handler Response).run B.exec st := by
    simp only [Backend.shorten, App.shorten, hurl, if_false]
    rfl
  have hout : ((shortenLoop req 5).run B.exec st).1 = .ok none ∨
      ((shortenLoop req 5).run B.exec st).1 = .ok (some internalServerError) := by
    rcases shortenLoop_spec B req 5 st with ⟨-, h, -⟩ | ⟨-, h, -⟩
    · exact .inl h
    · exact h
  rw [hrun, Prog.run_bind]
  generalize (shortenLoop req 5).run B.exec st = out at hout ⊢
  obtain ⟨r, st'⟩ := out
  rcases hout with h | h
  · cases h; rfl
  · cases h; rfl

/-- **The reply agrees with the store exactly when nothing is stored**: when the
first of the five attempts that does not collide fails, or all five collide. -/
theorem shorten_reply_agrees_iff (hurl : req.url ≠ "") :
    (∃ reply, (B.shorten (some req) (.start s total)).1 = .ok reply ∧
      ReplyAgrees req (.start s total) (B.shorten (some req) (.start s total)).2 reply) ↔
    ¬ StoresWithin B s req 0 5 := by
  rw [shorten_response hurl]
  have hcreated : ∀ code, internalServerError ≠ .created ("http://localhost:8000/" ++ code) := by
    rintro code ⟨⟩
  rcases shortenLoop_spec B req 5 (.start s total) with
    ⟨hst, -, -, code, hsaved⟩ | ⟨hst, -, htotal, hsaved, hstore⟩
  · refine ⟨?_, fun h => absurd hst h⟩
    rintro ⟨reply, hreply, h⟩
    cases hreply
    exact absurd ((h.created code).mpr (by rw [hsaved]; simp)) (hcreated code)
  · refine ⟨fun _ => hst, fun _ => ⟨_, rfl, ?_, fun _ => hstore, ?_⟩⟩
    · intro code
      refine ⟨fun h => absurd h (hcreated code), fun h => ?_⟩
      rw [hsaved] at h
      cases h
    · rw [hsaved, htotal]
      rfl

end

/-! ### Instances: the memory store, with collisions and without -/

/-- `MemoryStore` behind the handler, read at the instant `now`. -/
def MemoryStore.backend (now : Time) (generate : ℕ → Except String String) :
    Backend MemoryStore where
  generate := generate
  lookup _ s code :=
    match s.lookup now code with
    | (_, some err) => .error err
    | (val, none) => .ok val
  save _ s code url expiresAt :=
    match s.save code url expiresAt with
    | (_, some err) => .error err
    | (s', none) => .ok s'

def exampleRequest : UrlShortenRequest := ⟨"https://example.com", none⟩

/-- A store with one link. -/
def oneTaken : MemoryStore :=
  (MemoryStore.save (fun _ => none) "aZ3kQ9x" "https://example.org" none).1

/-- It, behind a generator whose first `n` codes are the one that is taken. -/
def collidingBackend (n : ℕ) : Backend MemoryStore :=
  MemoryStore.backend .zero fun i => .ok (if i ≤ n then "aZ3kQ9x" else "bY4lR0w")

/-- Five collisions, and nothing is stored: the reply agrees. After four the fifth attempt
stores the link, and no reply does. -/
theorem shorten_reply_agrees_iff_example :
    (∃ reply, ((collidingBackend 5).shorten (some exampleRequest) (.start oneTaken 0)).1 =
        .ok reply ∧ ReplyAgrees exampleRequest (.start oneTaken 0)
          ((collidingBackend 5).shorten (some exampleRequest) (.start oneTaken 0)).2 reply) ∧
      ¬ ∃ reply, ((collidingBackend 4).shorten (some exampleRequest) (.start oneTaken 0)).1 =
        .ok reply ∧ ReplyAgrees exampleRequest (.start oneTaken 0)
          ((collidingBackend 4).shorten (some exampleRequest) (.start oneTaken 0)).2 reply := by
  constructor
  · refine (shorten_reply_agrees_iff (by decide)).mpr ?_
    rintro ⟨i, -, hi, -, code, s', hgen, hfree, -⟩
    simp only [collidingBackend, MemoryStore.backend, Nat.zero_add] at hgen hi
    rw [if_pos hi] at hgen
    cases hgen
    cases hfree
  · refine mt (shorten_reply_agrees_iff (by decide)).mp (not_not_intro ?_)
    refine ⟨5, by decide, by decide, fun j _ hj => ?_, "bY4lR0w", _, rfl, rfl, rfl⟩
    refine ⟨"aZ3kQ9x", ⟨"https://example.org", none⟩, ?_, rfl⟩
    simp only [collidingBackend, MemoryStore.backend]
    rw [if_pos (by omega)]

/-- **A stored link is answered with 500**, on an empty memory store with nothing failing. -/
theorem shorten_loses_code :
    let B := MemoryStore.backend .zero fun _ => .ok "aZ3kQ9x"
    (B.shorten (some exampleRequest) (.start (fun _ => none) 0)).1 = .ok internalServerError ∧
      (B.shorten (some exampleRequest) (.start (fun _ => none) 0)).2.saved =
        [("aZ3kQ9x", "https://example.com", none)] ∧
      ¬ ReplyAgrees exampleRequest (.start (fun _ => none) 0)
        (B.shorten (some exampleRequest) (.start (fun _ => none) 0)).2 internalServerError := by
  intro B
  have hsaved : (B.shorten (some exampleRequest) (.start (fun _ => none) 0)).2.saved =
      [("aZ3kQ9x", "https://example.com", none)] := rfl
  refine ⟨rfl, hsaved, fun h => ?_⟩
  have hin := (h.created "aZ3kQ9x").mpr (by rw [hsaved]; simp [exampleRequest])
  cases hin

end EngineeringLab.Shortener
