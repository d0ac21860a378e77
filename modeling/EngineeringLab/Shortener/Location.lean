/-
Where a redirect goes: `App.Shorten` and `App.RedirectHandler` (`handler/handler.go`) about
one URL.

`Shorten` takes any string but the empty one. `http.Redirect` takes what it is given for a
reference, which may be relative: without a scheme and a leading slash it is put under the
directory of the request path, and the client resolves whatever comes against the request's
own URL. A string without a scheme thus leads back to the shortener
(`redirected_to_itself`); one with a scheme is sent as it is and denotes the same
everywhere (`redirect_goes_to_url_iff`). Both presuppose a handler that answers at all, so
not the one of the default wiring, which panics on every link it finds.

The theorem takes a request that `Shorten` saved, a store that holds its URL under the code,
and a run of the handler in which the lookup found it. That a store holds the URL after the
request is shown separately for both wirings (`Wiring.holds_of_shorten`), so that anything
may happen between the two as long as the URL stays. Two URLs are the same for a client if
they resolve alike against every base (`Reference.Denotes`).
-/
import EngineeringLab.Shortener.Redirect
import EngineeringLab.Shortener.Routes
import EngineeringLab.Web.Reference

set_option autoImplicit false

open Concurrency Web

namespace EngineeringLab.Shortener

/-! ## `http.Redirect` -/

/-- One character of a header value. -/
def escapeChar (c : Char) : List Char :=
  if c.toNat < 128 then [c]
  else (String.utf8EncodeChar c).flatMap fun b => '%' :: Nat.toDigits 16 b.toNat

/-- `hexEscapeNonASCII`. -/
def hexEscapeNonASCII (s : List Char) : List Char := s.flatMap escapeChar

/-- The path up to its last slash. -/
def pathDir (path : List Char) : List Char := (path.reverse.dropWhile (· ≠ '/')).reverse

/-- The `Location` that `http.Redirect` sends. -/
def redirectLocation (requestPath target : String) : String :=
  if (Reference.parse target.toList).scheme.isSome ∨ target.toList.head? = some '/' then
    String.ofList (hexEscapeNonASCII target.toList)
  else String.ofList (hexEscapeNonASCII (pathDir requestPath.toList ++ target.toList))

/-- The `Location` of a response to a request for `requestPath`. -/
def RedirectResponse.location (requestPath : String) : RedirectResponse → Option String
  | .httpError .. => none
  | .redirect url _ => some (redirectLocation requestPath url)

/-- Escaping leaves schemes alone. -/
theorem keepsScheme_escapeChar : KeepsScheme escapeChar where
  keeps c hc := by
    rw [escapeChar, if_pos (isSchemeChar_lt hc)]
  colon := by decide
  stops c hc := by
    by_cases hascii : c.toNat < 128
    · exact ⟨c, [], by rw [escapeChar, if_pos hascii], hc, id⟩
    · rw [escapeChar, if_neg hascii]
      obtain ⟨b, bs, hbytes⟩ := List.exists_cons_of_ne_nil (String.utf8EncodeChar_ne_nil (c := c))
      rw [hbytes, List.flatMap_cons]
      refine ⟨'%', _, rfl, by decide, fun h => by cases h⟩

/-- What is sent for a string has a scheme exactly if the string has. -/
theorem scheme_escaped_iff (url : String) :
    (Reference.parse (hexEscapeNonASCII url.toList)).scheme.isSome = true ↔
      (Reference.parse url.toList).scheme.isSome = true := by
  rw [Reference.parse_scheme, Reference.parse_scheme, Option.isSome_map, Option.isSome_map]
  exact keepsScheme_escapeChar.isSome_iff _

/-! ## From the request to the store -/

section

variable {σ : Type} {B : Backend σ} {req : UrlShortenRequest} {link : String × String × Option Time}

/-- What the loop saves is the request's URL, under a generated code, and nothing else is
done to the store. -/
theorem shortenLoop_saved (n : ℕ) (st : ShortenState σ)
    (h : link ∈ ((shortenLoop req n).run B.exec st).2.saved) :
    link ∈ st.saved ∨ (link.2 = (req.url, req.expiresAt) ∧ ∃ i, B.generate i = .ok link.1 ∧
      B.save i st.store link.1 req.url req.expiresAt =
        .ok ((shortenLoop req n).run B.exec st).2.store) := by
  induction n generalizing st with
  | zero => exact .inl h
  | succ n ih =>
      cases hgen : B.generate (st.attempt + 1) with
      -- no code: the loop ends
      | error msg =>
          have hsame : ((shortenLoop req (n + 1)).run B.exec st).2.saved = st.saved := by
            simp [shortenLoop, generateShortKey, Backend.exec, hgen]
          exact .inl (hsame ▸ h)
      | ok code =>
          -- the code is looked up: an error ends the loop, and only a free code is saved under
          rcases hlook : B.lookup (st.attempt + 1) st.store code with err | (_ | v)
          · have hsame : ((shortenLoop req (n + 1)).run B.exec st).2.saved = st.saved := by
              simp [shortenLoop, generateShortKey, storeLookup, Backend.exec, hgen, hlook]
            exact .inl (hsame ▸ h)
          · rcases hsave : B.save (st.attempt + 1) st.store code req.url req.expiresAt with err | s
            · have hsame : ((shortenLoop req (n + 1)).run B.exec st).2.saved = st.saved := by
                simp [shortenLoop, generateShortKey, storeLookup, storeSave, Backend.exec, hgen,
                  hlook, hsave]
              exact .inl (hsame ▸ h)
            · -- the one case in which something is saved
              have hrun : ((shortenLoop req (n + 1)).run B.exec st).2.saved =
                  (code, req.url, req.expiresAt) :: st.saved ∧
                  ((shortenLoop req (n + 1)).run B.exec st).2.store = s := by
                simp [shortenLoop, generateShortKey, storeLookup, storeSave, Backend.exec, hgen,
                  hlook, hsave]
              rw [hrun.1] at h
              rcases List.mem_cons.mp h with rfl | h
              · refine .inr ⟨rfl, _, hgen, ?_⟩
                rw [hrun.2]
                exact hsave
              · exact .inl h
          · -- a collision: the next round
            have hrun : (shortenLoop req (n + 1)).run B.exec st =
                (shortenLoop req n).run B.exec { st with attempt := st.attempt + 1 } := by
              simp [shortenLoop, generateShortKey, storeLookup, Backend.exec, hgen, hlook]
            rw [hrun] at h ⊢
            exact ih { st with attempt := st.attempt + 1 } h

/-- **What `Shorten` saves** is the URL it was sent, which is not empty, under a code of the
generator. -/
theorem shorten_saved {body : Option UrlShortenRequest} {s : σ} {total : ℕ} {code url : String}
    {x : Option Time} (h : (code, url, x) ∈ (B.shorten body (.start s total)).2.saved) :
    body = some ⟨url, x⟩ ∧ url ≠ "" ∧ ∃ i, B.generate i = .ok code ∧
      B.save i s code url x = .ok (B.shorten body (.start s total)).2.store := by
  by_cases hempty : ∀ req, body = some req → req.url = ""
  · obtain ⟨error, hrejected⟩ := shorten_rejected B hempty (.start s total)
    rw [hrejected] at h
    cases h
  · push Not at hempty
    obtain ⟨req, rfl, hurl⟩ := hempty
    rw [shorten_response hurl] at h ⊢
    rcases shortenLoop_saved 5 _ h with h | ⟨hlink, hcode⟩
    · cases h
    · cases hlink
      exact ⟨rfl, hurl, hcode⟩

end

/-! ## From the store to the handler -/

namespace Wiring

/-- One `Save` of the store. -/
def save : (w : Wiring) → w.State → String → String → Option Time → Option StoreError →
    w.State → Prop
  | prod cs => fun e code url x r e' => (cs.save code url x).Ends Exec e (.ok r) e'
  | default => memoryStore.save

/-- The store has `url` under the code, and so has the cache, if it has anything. -/
def Holds : (w : Wiring) → w.State → String → String → Prop
  | prod cs, e, code, url => (∃ t, e.urls code = some (url, t)) ∧
      ∀ en, e.redis code = some en → (cs.json.unmarshal en.data).url = url
  | default, s, code, url => ∃ x, s.data code = some ⟨url, x⟩

/-- The write-through at the end of a save. -/
theorem holds_of_write {cs : CachedStore} {e : Env} {code url : String} {x : Option Time}
    {t : NullTime} (hjson : (cs.json.unmarshal (cs.json.marshal ⟨url, x⟩)).url = url)
    (hrow : e.urls code = some (url, t)) (hempty : e.redis code = none) (ttl : ℤ) :
    (do
      let _ ← redisSet code (cs.json.marshal ⟨url, x⟩) ttl
      return none : Method (Option StoreError)).Always Exec e fun _ e' =>
        (prod cs).Holds e' code url := by
  have hset : (prod cs).Holds (e.set code (cs.json.marshal ⟨url, x⟩) ttl) code url := by
    refine ⟨⟨t, hrow⟩, fun en hen => ?_⟩
    have hself : (e.set code (cs.json.marshal ⟨url, x⟩) ttl).redis code = _ :=
      Function.update_self _ _ _
    rw [hself] at hen
    cases hen
    exact hjson
  intro r e' hexec
  cases hexec with
  | redisSet => exact hset
  | redisSet_lost msg =>
      -- there is no entry then, neither this one nor an older one
      refine ⟨⟨t, hrow⟩, fun en hen => ?_⟩
      rw [hempty] at hen
      cases hen
  | redisSet_late msg => exact hset

/-- A save in production that succeeds puts the URL there. -/
theorem prod_holds_of_save {cs : CachedStore} {e e' : Env} {code url : String} {x : Option Time}
    (hjson : (cs.json.unmarshal (cs.json.marshal ⟨url, x⟩)).url = url)
    (hstale : e.urls code = none → e.redis code = none)
    (h : (prod cs).save e code url x none e') : (prod cs).Holds e' code url := by
  have halways : (cs.save code url x).Always Exec e fun o e' =>
      o = .ok none → (prod cs).Holds e' code url := by
    unfold CachedStore.save PgStore.save pgInsert
    intro r e₁ hexec
    cases hexec with
    | pgInsert_fail msg =>
        intro hnone
        cases hnone
    | pgInsert hnew =>
        have hrow : (e.insert code url (.ofOption x)).urls code = some (url, .ofOption x) :=
          Function.update_self _ _ _
        have hempty : (e.insert code url (.ofOption x)).redis code = none := hstale hnew
        cases x with
        | none => exact (holds_of_write hjson hrow hempty cs.ttl).mono fun _ _ h _ => h
        | some t =>
            intro now e₂ hclock
            cases hclock
            exact (holds_of_write hjson hrow hempty _).mono fun _ _ h _ => h
  exact Prog.always_iff.mp halways _ _ h rfl

/-- What a save needs of the store to put its URL there: in production that the JSON of the
link keeps the URL, and that there is no stale entry under a code without a row. -/
def Fits : (w : Wiring) → w.State → String → String → Option Time → Prop
  | prod cs, e, code, url, x => (cs.json.unmarshal (cs.json.marshal ⟨url, x⟩)).url = url ∧
      (e.urls code = none → e.redis code = none)
  | default, _, _, _, _ => True

/-- A save that succeeds puts the URL there. -/
theorem holds_of_save {w : Wiring} {s s' : w.State} {code url : String} {x : Option Time}
    (hfits : w.Fits s code url x) (h : w.save s code url x none s') : w.Holds s' code url := by
  cases w with
  | prod cs => exact prod_holds_of_save hfits.1 hfits.2 h
  | default =>
      obtain ⟨-, rfl⟩ := h
      exact ⟨_, Function.update_self _ _ _⟩

/-- **After `Shorten`** the store has the URL under the code it was saved under. -/
theorem holds_of_shorten {w : Wiring} {B : Backend w.State}
    (hsave : ∀ i s code url x s', B.save i s code url x = .ok s' → w.save s code url x none s')
    {body : Option UrlShortenRequest} {s₀ : w.State} {total : ℕ} {code url : String}
    {x : Option Time} (hsaved : (code, url, x) ∈ (B.shorten body (.start s₀ total)).2.saved)
    (hfits : w.Fits s₀ code url x) :
    w.Holds (B.shorten body (.start s₀ total)).2.store code url := by
  obtain ⟨-, -, i, -, hlast⟩ := shorten_saved hsaved
  exact holds_of_save hfits (hsave _ _ _ _ _ _ hlast)

/-- `PgStore` finds a row's URL. -/
theorem pgLookup_url {e : Env} {code url : String} {t : NullTime}
    (hrow : e.urls code = some (url, t)) :
    (PgStore.lookup code).Always Exec e fun o _ =>
      ∀ val err, o = .ok (some val, err) → val.url = url := by
  unfold PgStore.lookup pgSelect
  intro r e₁ hexec
  cases hexec with
  | pgSelect_fail msg =>
      intro val err h
      cases h
  | pgSelect =>
      rw [hrow]
      by_cases hvalid : t.valid
      · simp only [Option.map_some, readRow, hvalid, if_true]
        intro now e₂ hclock
        cases hclock
        simp only [Prog.bind]
        split <;> intro val err h <;> cases h
        rfl
      · simp only [Option.map_some, readRow, hvalid]
        intro val err h
        cases h
        rfl

/-- So does a lookup that the cache did not answer, and what it then writes back is what it
returns. -/
theorem lookupPrimary_url {cs : CachedStore} {e : Env} {code url : String} {t : NullTime}
    (hrow : e.urls code = some (url, t)) :
    (cs.lookupPrimary code).Always Exec e fun o _ =>
      ∀ val err, o = .ok (some val, err) → val.url = url := by
  unfold CachedStore.lookupPrimary incCacheMiss
  rintro ⟨⟩ e₁ hexec
  cases hexec
  refine Prog.Always.bind ?_
  show (PgStore.lookup code >>= _).Always Exec _ _
  refine Prog.Always.bind (Prog.Always.mono (pgLookup_url hrow) fun o e₂ hfound => ?_)
  rcases o with _ | ⟨_ | v, _ | err⟩
  · intro val err h
    cases h
  · intro val err h
    cases h
  · intro val err h
    cases h
  · have hv : v.url = url := hfound v none rfl
    have hend : ∀ val err, (Except.ok (some v, none) :
        Except Empty (Option LookupResult × Option StoreError)) = .ok (some val, err) →
          val.url = url := by
      intro val err h
      cases h
      exact hv
    -- the backfill that is started changes nothing in the answer
    dsimp only
    cases v.expiresAt with
    | none =>
        rintro ⟨⟩ e₃ hgo
        exact hend
    | some t =>
        rintro now e₃ hclock ⟨⟩ e₄ hgo
        exact hend
  · intro val err' h
    cases h
    exact hfound v (some err) rfl

/-- A link that is found is the one that is held. -/
theorem url_of_holds {w : Wiring} {s s' : w.State} {code url : String} {val : LookupResult}
    (hheld : w.Holds s code url) (h : w.lookup s code (some val, none) s') : val.url = url := by
  cases w with
  | default =>
      obtain ⟨x, hx⟩ := hheld
      obtain ⟨hfound, -⟩ := h
      rw [MemoryStore.lookup, hx] at hfound
      dsimp only at hfound
      split at hfound
      · cases hfound
      · cases hfound
        rfl
  | prod cs =>
      -- Behind the cache the answer comes from Redis or from Postgres, and both hold `url`.
      have halways : (cs.lookup code).Always Exec s fun o _ =>
          ∀ val err, o = .ok (some val, err) → val.url = url := by
        obtain ⟨⟨t, hrow⟩, hentry⟩ := hheld
        unfold CachedStore.lookup redisGet
        intro r e₁ hexec
        cases hexec with
        | redisGet_fail msg => exact lookupPrimary_url hrow
        | redisGet =>
            cases hen : s.live code with
            | none => exact lookupPrimary_url hrow
            | some en =>
                rintro ⟨⟩ e₂ hhit val err h
                cases h
                exact hentry en (Env.redis_of_live hen)
      exact Prog.always_iff.mp halways _ _ h val none rfl

end Wiring

/-! ## The redirect -/

/-- A redirect for a link is a redirect to its URL, and there is one unless the tracker is
nil. -/
theorem handled_found_iff {w : Wiring} {st st' : w.Server} {code : String} {s : w.State}
    {o : Except Panic RedirectResponse} {val : LookupResult}
    (hrunning : w.tracker = .tracker → st.analyticsChan.closed = false)
    (h : Handled w st code s o st' (some val, none)) {response : RedirectResponse} :
    o = .ok response ↔ w.tracker = .tracker ∧ response = .redirect val.url 302 := by
  obtain ⟨-, hend⟩ := h
  cases htracker : w.tracker with
  | nil =>
      rw [htracker] at hend
      rw [hend.1]
      simp
  | tracker =>
      rw [htracker] at hend
      rw [(hend (hrunning htracker)).1]
      simp [eq_comm]

/-- **A redirect goes to the URL that was shortened** exactly if that has a scheme and the
handler has a tracker. `base` is the URL of the request. -/
theorem redirect_goes_to_url_iff {σ : Type} {B : Backend σ}
    (hgen : ∀ i, ∃ randInt, B.generate i = Shortcode.generateShortKey randInt)
    {body : Option UrlShortenRequest} {s₀ : σ} {total : ℕ} {code url : String} {x : Option Time}
    (hsaved : (code, url, x) ∈ (B.shorten body (.start s₀ total)).2.saved)
    {w : Wiring} {st st' : w.Server} (hheld : w.Holds st.store code url)
    (hrunning : w.tracker = .tracker → st.analyticsChan.closed = false) {clientIP : String}
    {o : Except Panic RedirectResponse} {made : List (Prog.Made RedirectCall RedirectAnswer)}
    (h : (App.redirectHandler w.appTracker code clientIP).Ends (Prog.logged w.Serves) (st, []) o
      (st', made)) {val : LookupResult} (hlive : lookups made = [(some val, none)]) (base : Uri) :
    (∃ response location, o = .ok response ∧ response.location ("/" ++ code) = some location ∧
      (Reference.parse (hexEscapeNonASCII url.toList)).Denotes
        (base.resolve (Reference.parse location.toList))) ↔
      w.tracker = .tracker ∧ (Reference.parse url.toList).scheme.isSome = true := by
  obtain ⟨-, -, i, hcode, -⟩ := shorten_saved hsaved
  obtain ⟨randInt, hrand⟩ := hgen i
  have hlen : code.toList.length = 7 := Shortcode.length_eq (hrand ▸ hcode)
  have hne : code ≠ "" := by
    rintro rfl
    cases hlen
  obtain ⟨r, s, hlookup, hmade, hhandled⟩ :=
    Prog.always_iff.mp (redirectHandler_always hne st) _ _ h
  have hr : r = (some val, none) := by
    have hmade : lookups made = [r] := hmade
    rw [hmade] at hlive
    exact (List.cons.inj hlive).1
  subst hr
  have hurl : val.url = url := Wiring.url_of_holds hheld hlookup
  simp only [handled_found_iff hrunning hhandled, hurl]
  constructor
  · rintro ⟨response, location, ⟨htracker, rfl⟩, -, hdenotes⟩
    refine ⟨htracker, ?_⟩
    -- whatever it resolves to, the escaped URL denotes it
    rw [← scheme_escaped_iff, ← Reference.exists_denotes_iff]
    exact ⟨_, hdenotes⟩
  · rintro ⟨htracker, hscheme⟩
    refine ⟨_, _, ⟨htracker, rfl⟩, rfl, ?_⟩
    rw [redirectLocation, if_pos (.inl hscheme), String.toList_ofList]
    exact Reference.denotes_resolve ((scheme_escaped_iff url).mpr hscheme) base

/-! ### Instances: a URL with a scheme and a string without one -/

/-- The draws that spell `aZ3kQ9x`. -/
def exampleDraw (i : ℕ) : Fin 62 :=
  ⟨[0, 51, 55, 10, 42, 61, 23].getD i 0 % 62, Nat.mod_lt _ (by decide)⟩

/-- `CachedStore` as a request meets it that runs alone while nothing fails. -/
def CachedStore.backend (cs : CachedStore) (generate : ℕ → Except String String) :
    Backend Env where
  generate := generate
  lookup _ e code :=
    match cs.lookupAt e code with
    | (_, some err) => .error err
    | (val, none) => .ok val
  save _ e code url expiresAt :=
    match (cs.save code url expiresAt).alone e with
    | (some err, _) => .error err
    | (none, e') => .ok e'

/-- Its saves are saves in production. -/
theorem CachedStore.backend_saves {cs : CachedStore} {generate : ℕ → Except String String}
    {i : ℕ} {e e' : Env} {code url : String} {x : Option Time}
    (h : (cs.backend generate).save i e code url x = .ok e') :
    (Wiring.prod cs).save e code url x none e' := by
  have hends := Method.ends_alone (cs.save code url x) e
  simp only [CachedStore.backend] at h
  split at h
  · cases h
  · rename_i e₁ hsave
    cases h
    rwa [hsave] at hends

/-- The empty store of production behind a generator that draws them. -/
def exampleBackend : Backend Env :=
  plainCache.backend fun _ => Shortcode.generateShortKey fun i => .ok (exampleDraw i)

/-- In production, once a link was shortened. -/
def shortened (url : String) : (Wiring.prod plainCache).Server :=
  ⟨(exampleBackend.shorten (some ⟨url, none⟩) (.start .empty 0)).2.store, 0, .make 1000, []⟩

/-- `http://localhost:8000/aZ3kQ9x`. -/
def exampleRequestURL : Uri :=
  ⟨"http".toList, some "localhost:8000".toList, "/aZ3kQ9x".toList, none, none⟩

/-- A link is shortened in production and then asked for there, one store serving both: the
`Location` denotes what was shortened. -/
theorem redirect_goes_to_url_iff_example :
    ∃ response location,
      (redirected (.prod plainCache) (shortened "https://example.com")).1 = .ok response ∧
      response.location "/aZ3kQ9x" = some location ∧
      (Reference.parse (hexEscapeNonASCII "https://example.com".toList)).Denotes
        (exampleRequestURL.resolve (Reference.parse location.toList)) := by
  have hsaved : ("aZ3kQ9x", "https://example.com", none) ∈
      (exampleBackend.shorten (some ⟨"https://example.com", none⟩) (.start .empty 0)).2.saved := by
    decide +kernel
  -- the request and the redirect are about one store
  have hheld : (Wiring.prod plainCache).Holds (shortened "https://example.com").store "aZ3kQ9x"
      "https://example.com" :=
    Wiring.holds_of_shorten (w := .prod plainCache)
      (fun _ _ _ _ _ _ => CachedStore.backend_saves) hsaved
      ⟨plainJson_faithful _ none (.inl rfl), fun _ => rfl⟩
  have hends := Prog.ends_logging (Wiring.serves_serve (.prod plainCache))
    (App.redirectHandler (Wiring.prod plainCache).appTracker "aZ3kQ9x" "192.0.2.1")
    (shortened "https://example.com", [])
  have hlive : lookups (redirected (.prod plainCache) (shortened "https://example.com")).2.2 =
      [(some ⟨"https://example.com", none⟩, none)] := by
    decide +kernel
  have hpath : "/" ++ "aZ3kQ9x" = "/aZ3kQ9x" := by decide +kernel
  rw [← hpath]
  refine (redirect_goes_to_url_iff (fun _ => ⟨_, rfl⟩) hsaved hheld (fun _ => rfl) hends hlive
    exampleRequestURL).mpr ⟨rfl, ?_⟩
  decide +kernel

/-- **A redirect to the shortener itself**: `example.com/page` is accepted and saved, and its
short link leads to `http://localhost:8000/example.com/page`. -/
theorem redirected_to_itself :
    ("aZ3kQ9x", "example.com/page", none) ∈
      (exampleBackend.shorten (some ⟨"example.com/page", none⟩) (.start .empty 0)).2.saved ∧
    (redirected (.prod plainCache) (shortened "example.com/page")).1 =
      .ok (.redirect "example.com/page" 302) ∧
    RedirectResponse.location "/aZ3kQ9x" (.redirect "example.com/page" 302) =
      some "/example.com/page" ∧
    exampleRequestURL.resolve (Reference.parse "/example.com/page".toList) =
      ⟨"http".toList, some "localhost:8000".toList, "/example.com/page".toList, none, none⟩ ∧
    ∀ t, ¬ (Reference.parse (hexEscapeNonASCII "example.com/page".toList)).Denotes t := by
  refine ⟨by decide +kernel, by decide +kernel, by decide +kernel, by decide +kernel,
    fun t ht => ?_⟩
  have hscheme := (Reference.exists_denotes_iff _).mp ⟨t, ht⟩
  revert hscheme
  decide +kernel

end EngineeringLab.Shortener
