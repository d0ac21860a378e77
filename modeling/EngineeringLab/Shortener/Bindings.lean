/-
Who a short code belongs to: `App.Shorten` (`handler/handler.go`), run by any number of
requests at once, over `MemoryStore` and over `PgStore`.

A request looks a code up and saves its link under it in two separate steps. `PgStore`
does not depend on the first: `short_code` is `UNIQUE`, so of two inserts the second
fails. `MemoryStore.Save` overwrites, so of two requests that draw the same code and look
it up before either has saved, one loses its link to the other (`saved_overwritten`). It
takes a save of the code between another request's lookup and save of it; in runs without
one every link stays (`saved_links_kept`).

One request is followed from its lookup to its save, through any steps of the others. What a
store has to offer for that are a few laws (`LinkStore`), which are proved of both: a lookup
changes no binding and calls a code free only if it is, a save that succeeds binds its code
and touches no other, and one that fails binds nothing. `PgStore` has one more
(`LinkStore.Exclusive`): its saves fail on a code that is bound. `MemoryStore` has not, and
the condition on its runs is that no other save of the code comes in between.
-/
import EngineeringLab.Shortener.Shorten

set_option autoImplicit false

open Concurrency

namespace EngineeringLab.Shortener

/-! ## Stores -/

/-- What `Lookup` returns, as the handler takes it: the error first. -/
def storeAnswer : Option LookupResult × Option StoreError →
    Except StoreError (Option LookupResult)
  | (_, some err) => .error err
  | (val, none) => .ok val

/-- An implementation of `handler.Store` with state `σ`: what one `Lookup` and one `Save`
may return and leave, what happens by itself, and the binding of each code. Only a
successful `Save` changes a binding, and a code that is not found is not bound. -/
structure LinkStore (σ β : Type) where
  lookup : σ → String → Option LookupResult × Option StoreError → σ → Prop
  save : σ → String → String → Option Time → Option StoreError → σ → Prop
  drift : σ → σ → Prop
  bound : σ → String → Option β
  binding : String → Option Time → β
  lookup_bound : ∀ {s code r s'}, lookup s code r s' → bound s' = bound s
  lookup_free : ∀ {s code r s'}, lookup s code r s' → storeAnswer r = .ok none →
    bound s code = none
  save_bound : ∀ {s code url expiresAt s'}, save s code url expiresAt none s' →
    bound s' = Function.update (bound s) code (some (binding url expiresAt))
  save_failed : ∀ {s code url expiresAt err s'}, save s code url expiresAt (some err) s' →
    bound s' = bound s
  drift_bound : ∀ {s s'}, drift s s' → bound s' = bound s

/-- `Save` fails on a code that is bound. -/
def LinkStore.Exclusive {σ β : Type} (P : LinkStore σ β) : Prop :=
  ∀ {s code url expiresAt s'}, P.save s code url expiresAt none s' → P.bound s code = none

/-- The map of a `MemoryStore` and the clock. -/
structure MemoryEnv where
  data : MemoryStore
  now : Time

def memoryStore : LinkStore MemoryEnv UrlData where
  lookup s code r s' := r = s.data.lookup s.now code ∧ s' = s
  save s code url expiresAt r s' :=
    r = (s.data.save code url expiresAt).2 ∧
      s' = { s with data := (s.data.save code url expiresAt).1 }
  drift s s' := s'.data = s.data ∧ s.now.instant ≤ s'.now.instant
  bound s := s.data
  binding url expiresAt := ⟨url, expiresAt.map (⟨·, true⟩)⟩
  lookup_bound := by
    rintro s code r s' ⟨-, rfl⟩
    rfl
  lookup_free := by
    rintro s code r s' ⟨rfl, -⟩ hfree
    cases hval : s.data code with
    | none => rfl
    | some val =>
        simp only [MemoryStore.lookup, hval] at hfree
        split at hfree <;> cases hfree
  save_bound := by
    rintro s code url expiresAt s' ⟨-, rfl⟩
    rfl
  save_failed := by
    rintro s code url expiresAt err s' ⟨hfail, -⟩
    cases hfail
  drift_bound h := h.1

def pgStore : LinkStore Env (String × NullTime) where
  lookup s code r s' := (PgStore.lookup code).Ends Exec s (.ok r) s'
  save s code url expiresAt r s' := (PgStore.save code url expiresAt).Ends Exec s (.ok r) s'
  drift := Drift
  bound s := s.urls
  binding url expiresAt := (url, .ofOption expiresAt)
  lookup_bound h := by rw [(Prog.always_iff.mp PgStore.lookup_always _ _ h).1]
  lookup_free := by
    rintro s code ⟨val, err⟩ s' h hfree
    cases err with
    | some err => cases hfree
    | none =>
        cases hfree
        exact (Prog.always_iff.mp PgStore.lookup_always _ _ h).2 rfl
  save_bound := by
    intro s code url expiresAt s' h
    rcases PgStore.save_ends h with ⟨-, -, rfl⟩ | ⟨hfail, -⟩
    · rfl
    · exact absurd rfl hfail
  save_failed := by
    intro s code url expiresAt err s' h
    rcases PgStore.save_ends h with ⟨hok, -⟩ | ⟨-, rfl⟩
    · cases hok
    · rfl
  drift_bound h := h.urls

/-- The unique index refuses a second row for a code. -/
theorem pgStore_exclusive : pgStore.Exclusive := by
  intro s code url expiresAt s' h
  rcases PgStore.save_ends h with ⟨-, hnew, -⟩ | ⟨hfail, -⟩
  · exact hnew
  · exact absurd rfl hfail

/-! ## Concurrent requests -/

/-- What a successful `Save` was called with. -/
structure SavedLink where
  code : String
  url : String
  expiresAt : Option Time
  deriving DecidableEq, Repr

/-- The store behind the handler and its counter. `saved` is a ghost: the successful
saves, newest first. -/
structure Shop (σ : Type) where
  store : σ
  totalShortened : ℕ
  saved : List SavedLink

/-- The state that the requests find. -/
def Shop.start {σ : Type} (store : σ) : Shop σ := ⟨store, 0, []⟩

namespace LinkStore

variable {σ β : Type} (P : LinkStore σ β)

/-- The calls of a handler. The generator may give any code, at any time. -/
inductive Serves : Shop σ → (c : HandlerCall) → HandlerAnswer c → Shop σ → Prop
  | generateShortKey {e : Shop σ} (r : Except String String) : Serves e .generateShortKey r e
  | lookup {e : Shop σ} {code : String} {r : Option LookupResult × Option StoreError} {s : σ}
      (h : P.lookup e.store code r s) :
      Serves e (.lookup code) (storeAnswer r) { e with store := s }
  | save {e : Shop σ} {code url : String} {expiresAt : Option Time} {s : σ}
      (h : P.save e.store code url expiresAt none s) :
      Serves e (.save code url expiresAt) none
        ⟨s, e.totalShortened, ⟨code, url, expiresAt⟩ :: e.saved⟩
  | save_failed {e : Shop σ} {code url : String} {expiresAt : Option Time} {err : StoreError}
      {s : σ} (h : P.save e.store code url expiresAt (some err) s) :
      Serves e (.save code url expiresAt) (some err) { e with store := s }
  | totalShortenedAdd {e : Shop σ} :
      Serves e .totalShortenedAdd () { e with totalShortened := e.totalShortened + 1 }

/-- Any number of `Shorten` requests over the store. -/
def system :
    System (Shop σ) (Option UrlShortenRequest) HandlerCall HandlerAnswer Empty Response where
  body := App.shorten
  admits _ := True
  exec := P.Serves
  drift e e' := P.drift e.store e'.store ∧ e'.saved = e.saved ∧
    e'.totalShortened = e.totalShortened
  spawn _ := []

/-- From `e₀` on nothing was overwritten: no two saves had the same code, every saved
link is still what its code is bound to, and so is what was bound before. -/
structure Kept (e₀ e : Shop σ) : Prop where
  codes : (e.saved.map (·.code)).Nodup
  bound : ∀ link ∈ e.saved,
    P.bound e.store link.code = some (P.binding link.url link.expiresAt)
  earlier : ∀ code b, P.bound e₀.store code = some b → P.bound e.store code = some b

/-- The condition on a save: no other request has saved under its code since the request
looked the code up, which is its call before. -/
def noSaveBetween : Option UrlShortenRequest → History (Shop σ) HandlerCall HandlerAnswer →
    (c : HandlerCall) → HandlerAnswer c → Shop σ → Prop
  | _, h, .save code _ _, _, _ =>
    ∀ link ∈ h.now.saved, link.code = code → link ∈ h.latest.saved
  | _, _, _, _, _ => True

instance noSaveBetween.decidable (q : Option UrlShortenRequest)
    (h : History (Shop σ) HandlerCall HandlerAnswer) :
    ∀ (c : HandlerCall) (r : HandlerAnswer c) (e : Shop σ), Decidable (noSaveBetween q h c r e)
  | .save code _ _, _, _ => inferInstanceAs
      (Decidable (∀ link ∈ h.now.saved, link.code = code → link ∈ h.latest.saved))
  | .generateShortKey, _, _ => .isTrue trivial
  | .lookup _, _, _ => .isTrue trivial
  | .totalShortenedAdd, _, _ => .isTrue trivial

/-- What a request may rely on: a code whose binding changes was saved. -/
structure Logged (e e' : Shop σ) : Prop where
  saved : e.saved ⊆ e'.saved
  changed : ∀ code, P.bound e'.store code ≠ P.bound e.store code →
    ∃ link ∈ e'.saved, link.code = code

variable {P}

theorem Logged.refl (e : Shop σ) : P.Logged e e :=
  ⟨fun _ h => h, fun _ h => absurd rfl h⟩

theorem Logged.trans {e e' e'' : Shop σ} (h : P.Logged e e') (h' : P.Logged e' e'') :
    P.Logged e e'' := by
  refine ⟨fun link hlink => h'.saved (h.saved hlink), fun code hne => ?_⟩
  by_cases hlast : P.bound e''.store code = P.bound e'.store code
  · rw [hlast] at hne
    obtain ⟨link, hlink, hcode⟩ := h.changed code hne
    exact ⟨link, h'.saved hlink, hcode⟩
  · exact h'.changed code hlast

/-! ### What a step keeps -/

section

variable {e₀ e e' : Shop σ}

/-- A step that binds and saves nothing. -/
theorem Kept.same (h : P.Kept e₀ e) (hbound : P.bound e'.store = P.bound e.store)
    (hsaved : e'.saved = e.saved) : P.Kept e₀ e' ∧ P.Logged e e' := by
  refine ⟨⟨?_, ?_, ?_⟩, fun link hlink => ?_, fun code hne => ?_⟩
  · rw [hsaved]
    exact h.codes
  · rw [hsaved, hbound]
    exact h.bound
  · rw [hbound]
    exact h.earlier
  · rwa [hsaved]
  · rw [hbound] at hne
    exact absurd rfl hne

/-- A save under a code that nothing is bound to. -/
theorem Kept.save (h : P.Kept e₀ e) {code url : String} {expiresAt : Option Time} {s : σ}
    (hfree : P.bound e.store code = none) (hsave : P.save e.store code url expiresAt none s) :
    P.Kept e₀ ⟨s, e.totalShortened, ⟨code, url, expiresAt⟩ :: e.saved⟩ ∧
      P.Logged e ⟨s, e.totalShortened, ⟨code, url, expiresAt⟩ :: e.saved⟩ := by
  have hbound := P.save_bound hsave
  -- what is bound already is bound to another code
  have hother : ∀ code' b, P.bound e.store code' = some b → P.bound s code' = some b := by
    intro code' b hb
    have hne : code' ≠ code := by
      rintro rfl
      rw [hfree] at hb
      cases hb
    rwa [hbound, Function.update_of_ne hne]
  refine ⟨⟨?_, ?_, fun code' b hb => hother code' b (h.earlier code' b hb)⟩,
    List.subset_cons_self _ _, ?_⟩
  · rw [List.map_cons, List.nodup_cons]
    refine ⟨fun hmem => ?_, h.codes⟩
    obtain ⟨link, hlink, hcode⟩ := List.mem_map.mp hmem
    have hb := h.bound link hlink
    rw [hcode, hfree] at hb
    cases hb
  · intro link hlink
    rcases List.mem_cons.mp hlink with rfl | hlink
    · show P.bound s code = _
      rw [hbound, Function.update_self]
    · exact hother _ _ (h.bound link hlink)
  · intro code' hne
    by_cases hcode : code' = code
    · exact ⟨_, List.mem_cons_self, hcode.symm⟩
    · have heq : P.bound s code' = P.bound e.store code' := by
        rw [hbound, Function.update_of_ne hcode]
      exact absurd heq hne

end

/-! ### The contract -/

variable (P) in
/-- A save is `ok` when the store is exclusive, or no other save came between. -/
def keeping (e₀ : Shop σ) : Contract P.system where
  inv := P.Kept e₀
  rely := P.Logged
  pre _ _ := True
  ok q h c r e := P.Exclusive ∨ noSaveBetween q h c r e
  guar _ h _ _ e := P.Kept e₀ e ∧ P.Logged h.now e
  post _ _ _ := True

section

variable {e₀ : Shop σ} {q : Option UrlShortenRequest}
  {h h' : History (Shop σ) HandlerCall HandlerAnswer}

/-- A code that a request found free is still free when it saves. -/
theorem free_at_save {code url : String} {expiresAt : Option Time} {r : Option StoreError}
    {e : Shop σ} {s : σ} (hkept : P.Kept e₀ h.now) (hlatest : h.latest = h.now)
    (hfree : P.bound h.now.store code = none)
    (hx : History.Extends (P.Kept e₀) P.Logged h h')
    (hok : (P.keeping e₀).ok q h' (.save code url expiresAt) r e)
    (hsave : P.save h'.now.store code url expiresAt none s) :
    P.bound h'.now.store code = none := by
  rcases hok with hexclusive | hbetween
  · exact hexclusive hsave
  · by_contra hbound
    have hlogged : P.Logged h.now h'.now := hx.rel Logged.refl Logged.trans fun hs => hs
    rw [← hfree] at hbound
    -- somebody saved under the code, and had done so before it was looked up
    obtain ⟨link, hlink, rfl⟩ := hlogged.changed code hbound
    have hold : link ∈ h'.latest.saved := hbetween link hlink rfl
    rw [hx.latest_eq, hlatest] at hold
    have hb := hkept.bound link hold
    rw [hfree] at hb
    cases hb

theorem shortenLoop_along (req : UrlShortenRequest) (n : ℕ) :
    (P.keeping e₀).Along q (shortenLoop req n) h fun _ _ => True := by
  induction n generalizing h with
  | zero => trivial
  | succ n ih =>
      unfold shortenLoop generateShortKey storeLookup storeSave
      intro h₁ _ hkept₁ key e₁ hgen _
      cases hgen
      refine ⟨hkept₁.same rfl rfl, ?_⟩
      cases key with
      | error msg => trivial
      | ok shortKey =>
          -- the lookup and, if the code is free, the save are two calls
          intro h₂ _ hkept₂ answer e₂ hlookup _
          cases hlookup with
          | @lookup _ r s hlookup =>
              have hsame : P.Kept e₀ { h₂.now with store := s } ∧
                  P.Logged h₂.now { h₂.now with store := s } :=
                Kept.same hkept₂ (P.lookup_bound hlookup) rfl
              refine ⟨hsame, ?_⟩
              cases hanswer : storeAnswer r with
              | error err => trivial
              | ok val =>
                  cases val with
                  | some val =>
                      -- taken: the next code
                      exact ih
                  | none =>
                      have hfree : P.bound s shortKey = none := by
                        rw [P.lookup_bound hlookup]
                        exact P.lookup_free hlookup hanswer
                      intro h₃ hx₃ hkept₃ err e₃ hsave hok
                      cases hsave with
                      | save hsave =>
                          have hstill := free_at_save (h := .own h₂ _ _ { h₂.now with store := s })
                            hsame.1 rfl hfree hx₃ hok hsave
                          exact ⟨hkept₃.save hstill hsave, trivial⟩
                      | save_failed hsave =>
                          exact ⟨hkept₃.same (P.save_failed hsave) rfl, trivial⟩

theorem shorten_safe : (P.keeping e₀).Safe q (App.shorten q) h := by
  unfold App.shorten
  split
  · trivial
  · rename_i req
    split
    · trivial
    · refine Contract.Along.bind ((shortenLoop_along req 5).mono fun o h' _ => ?_)
      cases o with
      | error x => exact x.elim
      | ok r =>
          cases r with
          | some response => trivial
          | none => trivial

theorem kept_start (s : σ) : P.Kept (.start s) (.start s) where
  codes := List.nodup_nil
  bound _ hlink := by cases hlink
  earlier _ _ hb := hb

theorem keeping_holds : (P.keeping e₀).Holds where
  drift e e' hkept hdrift := hkept.same (P.drift_bound hdrift.1) hdrift.2.1
  call q h c r e hkept hexec hguar := ⟨hguar.1, hguar.2, fun _ hq => by cases hq⟩
  arrive _ _ _ _ := trivial
  body _ _ _ _ := shorten_safe

end

/-- In a run whose saves are all `ok` nothing is overwritten. -/
theorem kept_of_reach {s : σ} {w : World (Shop σ) (Option UrlShortenRequest) HandlerCall
      HandlerAnswer Empty Response}
    (hw : P.system.Reach (P.keeping (.start s)).ok (.start s) w) : P.Kept (.start s) w.env :=
  (Contract.sound keeping_holds (kept_start s) hw).1

end LinkStore

/-- **A saved link stays what its code is bound to**, and its code is its own: over
`PgStore` in every run, over `MemoryStore` in every run in which no save comes between
another request's lookup and save of the same code. -/
theorem saved_links_kept (s : Env) (m : MemoryEnv) :
    (∀ w, pgStore.system.Reach anyCall (.start s) w → pgStore.Kept (.start s) w.env) ∧
      ∀ w, memoryStore.system.Reach LinkStore.noSaveBetween (.start m) w →
        memoryStore.Kept (.start m) w.env :=
  ⟨fun _ hw => LinkStore.kept_of_reach (hw.mono fun _ _ _ _ _ _ => .inl pgStore_exclusive),
    fun _ hw => LinkStore.kept_of_reach (hw.mono fun _ _ _ _ _ hok => .inr hok)⟩

/-! ### Two requests that draw one code -/

/-- Each call on a memory store when every request draws `shortKey`. -/
def memoryServe (shortKey : String) (e : Shop MemoryEnv) :
    (c : HandlerCall) → HandlerAnswer c × Shop MemoryEnv
  | .generateShortKey => (.ok shortKey, e)
  | .lookup code => (storeAnswer (e.store.data.lookup e.store.now code), e)
  | .save code url expiresAt =>
    (none, ⟨{ e.store with data := (e.store.data.save code url expiresAt).1 }, e.totalShortened,
      ⟨code, url, expiresAt⟩ :: e.saved⟩)
  | .totalShortenedAdd => ((), { e with totalShortened := e.totalShortened + 1 })

theorem serves_memoryServe (shortKey : String) (e : Shop MemoryEnv) (c : HandlerCall) :
    memoryStore.Serves e c (memoryServe shortKey e c).1 (memoryServe shortKey e c).2 := by
  cases c with
  | generateShortKey => exact .generateShortKey _
  | lookup code => exact .lookup ⟨rfl, rfl⟩
  | save code url expiresAt => exact .save ⟨rfl, rfl⟩
  | totalShortenedAdd => exact .totalShortenedAdd

/-- The same on Postgres when nothing fails but the unique index. -/
def pgServe (shortKey : String) (e : Shop Env) : (c : HandlerCall) → HandlerAnswer c × Shop Env
  | .generateShortKey => (.ok shortKey, e)
  | .lookup code => (storeAnswer (PgStore.lookupAt e.store code), e)
  | .save code url expiresAt =>
    if e.store.urls code = none then
      (none, ⟨e.store.insert code url (.ofOption expiresAt), e.totalShortened,
        ⟨code, url, expiresAt⟩ :: e.saved⟩)
    else (some (.database "duplicate key value violates unique constraint"), e)
  | .totalShortenedAdd => ((), { e with totalShortened := e.totalShortened + 1 })

theorem serves_pgServe (shortKey : String) (e : Shop Env) (c : HandlerCall) :
    pgStore.Serves e c (pgServe shortKey e c).1 (pgServe shortKey e c).2 := by
  cases c with
  | generateShortKey => exact .generateShortKey _
  | lookup code => exact .lookup PgStore.ends_lookupAt
  | save code url expiresAt =>
      simp only [pgServe]
      split
      · rename_i hfree
        exact .save (.call (.pgInsert hfree) (.ret _ _))
      · exact .save_failed (.call (.pgInsert_fail _) (.ret _ _))
  | totalShortenedAdd => exact .totalShortenedAdd

/-- The request of somebody else. -/
def otherRequest : UrlShortenRequest := ⟨"https://example.org", none⟩

/-- One request to its end, then the other: it draws the code of the first five times. -/
def oneAfterOther {σ : Type} : List (Move (Shop σ) (Option UrlShortenRequest)) :=
  .arrive (some exampleRequest) :: List.replicate 3 (.call 0) ++
    .arrive (some otherRequest) :: List.replicate 10 (.call 1)

/-- Both look the code up before either saves. -/
def sideBySide {σ : Type} : List (Move (Shop σ) (Option UrlShortenRequest)) :=
  [.arrive (some exampleRequest), .arrive (some otherRequest), .call 0, .call 1, .call 0, .call 1,
    .call 0, .call 1]

theorem legal_moves {σ β : Type} {P : LinkStore σ β} {ms : List (Move (Shop σ) _)}
    (h : ∀ m ∈ ms, ∀ g, m ≠ .drift g) : ∀ m ∈ ms, P.system.Legal m := by
  intro m hm
  cases m with
  | arrive q => trivial
  | call i => trivial
  | drift g => exact absurd rfl (h _ hm g)

def emptyMemory : MemoryEnv := ⟨fun _ => none, .zero⟩

/-- Where the two requests get, over `MemoryStore`. -/
def memoryAfter (ms : List (Move (Shop MemoryEnv) (Option UrlShortenRequest))) :
    World (Shop MemoryEnv) (Option UrlShortenRequest) HandlerCall HandlerAnswer Empty Response :=
  memoryStore.system.playAll (fun e c => memoryServe "aZ3kQ9x" e c) ⟨.start emptyMemory, []⟩ ms

/-- And over `PgStore`. -/
def pgAfter (ms : List (Move (Shop Env) (Option UrlShortenRequest))) :
    World (Shop Env) (Option UrlShortenRequest) HandlerCall HandlerAnswer Empty Response :=
  pgStore.system.playAll (fun e c => pgServe "aZ3kQ9x" e c) ⟨.start .empty, []⟩ ms

theorem reach_memoryAfter {ms : List (Move (Shop MemoryEnv) (Option UrlShortenRequest))}
    {ok : Option UrlShortenRequest → History (Shop MemoryEnv) HandlerCall HandlerAnswer →
      (c : HandlerCall) → HandlerAnswer c → Shop MemoryEnv → Prop}
    (h : ∀ m ∈ ms, ∀ g, m ≠ .drift g)
    (hok : memoryStore.system.Meets (fun e c => memoryServe "aZ3kQ9x" e c) ok
      ⟨.start emptyMemory, []⟩ ms) :
    memoryStore.system.Reach ok (.start emptyMemory) (memoryAfter ms) :=
  System.reach_play (serves_memoryServe "aZ3kQ9x") (legal_moves h) hok

theorem reach_pgAfter {ms : List (Move (Shop Env) (Option UrlShortenRequest))}
    (h : ∀ m ∈ ms, ∀ g, m ≠ .drift g) :
    pgStore.system.Reach anyCall (.start .empty) (pgAfter ms) :=
  System.reach_play (serves_pgServe "aZ3kQ9x") (legal_moves h) (System.meets_anyCall _ _)

/-- Side by side over Postgres, or one after the other in memory, the second link is not
stored. -/
theorem saved_links_kept_example :
    ((pgAfter sideBySide).env.saved = [⟨"aZ3kQ9x", "https://example.com", none⟩] ∧
      pgStore.Kept (.start .empty) (pgAfter sideBySide).env) ∧
      (memoryAfter oneAfterOther).env.saved = [⟨"aZ3kQ9x", "https://example.com", none⟩] ∧
      memoryStore.Kept (.start emptyMemory) (memoryAfter oneAfterOther).env := by
  have hkept := saved_links_kept .empty emptyMemory
  refine ⟨⟨by decide +kernel, hkept.1 _ (reach_pgAfter ?_)⟩, by decide +kernel,
    hkept.2 _ (reach_memoryAfter ?_ ?_)⟩
  · simp [sideBySide]
  · simp [oneAfterOther]
  · decide +kernel

/-- **A saved link is overwritten** when both requests look the code up before either saves.
The second save succeeds, and the first client has a code that leads to the link of the
second. -/
theorem saved_overwritten :
    ∃ w, memoryStore.system.Reach anyCall (.start emptyMemory) w ∧
      w.env.saved = [⟨"aZ3kQ9x", "https://example.org", none⟩,
        ⟨"aZ3kQ9x", "https://example.com", none⟩] ∧
      w.env.store.data "aZ3kQ9x" = some ⟨"https://example.org", none⟩ ∧
      ¬ memoryStore.Kept (.start emptyMemory) w.env := by
  have hsaved : (memoryAfter sideBySide).env.saved = [⟨"aZ3kQ9x", "https://example.org", none⟩,
      ⟨"aZ3kQ9x", "https://example.com", none⟩] := by
    decide +kernel
  refine ⟨memoryAfter sideBySide, reach_memoryAfter ?_ (System.meets_anyCall _ _), hsaved,
    by decide +kernel, fun hkept => ?_⟩
  · simp [sideBySide]
  · have hcodes := hkept.codes
    rw [hsaved] at hcodes
    revert hcodes
    decide

end EngineeringLab.Shortener
