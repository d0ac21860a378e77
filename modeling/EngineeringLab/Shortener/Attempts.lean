/-
Which code `App.Shorten` saves under.

The retry loop is to skip the codes that are taken and to save under the first one that
is not. A code whose link has expired is taken, but the store says so with `ErrExpired`,
and the loop takes every error for a failure of the store: it answers 500 and leaves,
however many attempts are left. So the loop does what it is for exactly when no expired
link is met before the first free code (`shorten_saves_first_free_iff`).

The loop makes five attempts at most. An attempt ends it when the code is free and is saved,
or when a call fails; it goes on when the lookup finds a live link. That makes the code it
saves under the first free one among those generated, provided that the lookups before it
all found something (`saves_eq`).

The three stores differ in when a link has expired and agree in the rest, so one theorem
serves them. The clock may show another time at every attempt, and nothing is assumed about
it: a link that is live at one attempt may be expired at the next.
-/
import EngineeringLab.Shortener.Stores

set_option autoImplicit false

open Concurrency

namespace EngineeringLab.Shortener

/-! ## A request and what it saves -/

/-- What one request meets when nothing fails: the code, the store and the clock of its
`i`-th attempt. -/
structure Attempts where
  codes : ℕ → String
  stores : ℕ → Store
  clock : ℕ → Time

namespace Attempts

/-- What the code of the `i`-th attempt holds. -/
def slot (a : Attempts) (i : ℕ) : Store.Slot := (a.stores i).slot (a.clock i) (a.codes i)

/-- The attempts as the handler meets them. -/
def backend (a : Attempts) : Backend Store where
  generate i := .ok (a.codes i)
  lookup i _ code := storeAnswer ((a.stores i).lookup (a.clock i) code)
  save i _ code url expiresAt :=
    match (a.stores i).save (a.clock i) code url expiresAt with
    | (some err, _) => .error err
    | (none, store) => .ok store

/-- Of the `n` attempts after the `k`-th, the `i`-th is the first with a free code. -/
structure FirstFree (a : Attempts) (k n i : ℕ) : Prop where
  after : k < i
  within : i ≤ k + n
  free : a.slot i = .free
  first : ∀ j, k < j → j < i → a.slot j ≠ .free

/-- No attempt between the `k`-th and the `i`-th meets an expired link. -/
def NoneExpired (a : Attempts) (k i : ℕ) : Prop := ∀ j, k < j → j < i → a.slot j ≠ .expired

end Attempts

/-- The calls of `Save` among the calls of a run, successful or not. -/
def saveCalls {σ : Type} (calls : List (Prog.Event σ HandlerCall HandlerAnswer)) :
    List (String × String × Option Time) :=
  calls.filterMap fun ev =>
    match ev.call with
    | .save code url expiresAt => some (code, url, expiresAt)
    | _ => none

/-- The calls of `Save` that one request makes. -/
def Attempts.saves (a : Attempts) (req : UrlShortenRequest) (total : ℕ) :
    List (String × String × Option Time) :=
  saveCalls ((App.shorten (some req)).trace a.backend.exec (.start (a.stores 0) total))

/-- The request gives up only when it must: one save, under the first free code of the
five, and none only when all five are taken. -/
structure SavesFirstFree (a : Attempts) (req : UrlShortenRequest)
    (saves : List (String × String × Option Time)) : Prop where
  first : ∀ i, a.FirstFree 0 5 i → saves = [(a.codes i, req.url, req.expiresAt)]
  none : saves = [] → ∀ i, 0 < i → i ≤ 5 → a.slot i ≠ .free

/-! ## The loop -/

section

variable {a : Attempts} {req : UrlShortenRequest} {k n i : ℕ}

theorem Attempts.FirstFree.unique {i' : ℕ} (h : a.FirstFree k n i) (h' : a.FirstFree k n i') :
    i = i' := by
  rcases Nat.lt_trichotomy i i' with hlt | heq | hlt
  · exact absurd h.free (h'.first i h.after hlt)
  · exact heq
  · exact absurd h'.free (h.first i' h'.after hlt)

/-- A free code among the attempts makes one of them the first. -/
theorem Attempts.exists_firstFree (hk : k < i) (hn : i ≤ k + n) (hfree : a.slot i = .free) :
    ∃ j, a.FirstFree k n j := by
  classical
  have hexists : ∃ j, k < j ∧ a.slot j = .free := ⟨i, hk, hfree⟩
  obtain ⟨hafter, hslot⟩ := Nat.find_spec hexists
  refine ⟨Nat.find hexists, hafter, ?_, hslot, fun j hj hlt => ?_⟩
  · exact le_trans (Nat.find_min' hexists ⟨hk, hfree⟩) hn
  · exact fun hj' => Nat.find_min hexists hlt ⟨hj, hj'⟩

/-- Past a code that is taken, the first free one is that of the attempts left. -/
theorem Attempts.firstFree_succ (h : a.slot (k + 1) ≠ .free) :
    a.FirstFree k (n + 1) i ↔ a.FirstFree (k + 1) n i := by
  constructor
  · rintro ⟨hafter, hwithin, hfree, hfirst⟩
    have hne : i ≠ k + 1 := by
      rintro rfl
      exact h hfree
    exact ⟨by omega, by omega, hfree, fun j hj hlt => hfirst j (by omega) hlt⟩
  · rintro ⟨hafter, hwithin, hfree, hfirst⟩
    refine ⟨by omega, by omega, hfree, fun j hj hlt => ?_⟩
    by_cases hj' : j = k + 1
    · rwa [hj']
    · exact hfirst j (by omega) hlt

theorem Attempts.noneExpired_succ (h : a.slot (k + 1) ≠ .expired) :
    a.NoneExpired k i ↔ a.NoneExpired (k + 1) i := by
  constructor
  · exact fun hnone j hj hlt => hnone j (by omega) hlt
  · intro hnone j hj hlt
    by_cases hj' : j = k + 1
    · rwa [hj']
    · exact hnone j (by omega) hlt

/-- What the loop does at an attempt, for each kind of slot. -/
theorem saveCalls_succ (n : ℕ) (st : ShortenState Store) :
    saveCalls ((shortenLoop req (n + 1)).trace a.backend.exec st) =
      match a.slot (st.attempt + 1) with
      | .free => [(a.codes (st.attempt + 1), req.url, req.expiresAt)]
      | .expired => []
      | .live => saveCalls
          ((shortenLoop req n).trace a.backend.exec { st with attempt := st.attempt + 1 }) := by
  have hanswer : Store.Answers (a.backend.lookup (st.attempt + 1) st.store
      (a.codes (st.attempt + 1))) (a.slot (st.attempt + 1)) := Store.lookup_spec _ _ _
  have hgenerate : a.backend.generate (st.attempt + 1) = .ok (a.codes (st.attempt + 1)) := rfl
  cases hslot : a.slot (st.attempt + 1) with
  | free =>
      rw [hslot] at hanswer
      have hnone : a.backend.lookup _ st.store _ = .ok none := hanswer
      -- Whether the save succeeds or not, the loop ends with this attempt.
      cases hsave : a.backend.save (st.attempt + 1) st.store (a.codes (st.attempt + 1)) req.url
          req.expiresAt <;>
        simp [shortenLoop, generateShortKey, storeLookup, storeSave, Backend.exec, Prog.trace,
          saveCalls, hgenerate, hnone, hsave]
  | expired =>
      rw [hslot] at hanswer
      have herror : a.backend.lookup _ st.store _ = .error .errExpired := hanswer
      simp [shortenLoop, generateShortKey, storeLookup, Backend.exec, Prog.trace, saveCalls,
        hgenerate, herror]
  | live =>
      rw [hslot] at hanswer
      obtain ⟨val, hval⟩ := hanswer
      simp [shortenLoop, generateShortKey, storeLookup, Backend.exec, Prog.trace, saveCalls,
        hgenerate, hval]

/-- **The loop** saves under the first free code, unless it meets an expired link before. -/
theorem saveCalls_loop (a : Attempts) (req : UrlShortenRequest) (n : ℕ)
    (st : ShortenState Store) :
    let saves := saveCalls ((shortenLoop req n).trace a.backend.exec st)
    (∃ i, a.FirstFree st.attempt n i ∧ a.NoneExpired st.attempt i ∧
        saves = [(a.codes i, req.url, req.expiresAt)]) ∨
      (∀ i, a.FirstFree st.attempt n i → ¬ a.NoneExpired st.attempt i) ∧ saves = [] := by
  induction n generalizing st with
  | zero =>
      refine .inr ⟨fun i hi => ?_, rfl⟩
      have := hi.after
      have := hi.within
      omega
  | succ n ih =>
      rw [saveCalls_succ]
      cases hslot : a.slot (st.attempt + 1) with
      -- saved here, and the loop is over
      | free =>
          exact .inl ⟨st.attempt + 1, ⟨by omega, by omega, hslot, fun j hj hlt => by omega⟩,
            fun j hj hlt => by omega, rfl⟩
      -- the lookup fails, and so does the request
      | expired =>
          refine .inr ⟨fun i hi hnone => ?_, rfl⟩
          have hafter := ((Attempts.firstFree_succ (by rw [hslot]; decide)).mp hi).after
          exact hnone (st.attempt + 1) (by omega) hafter hslot
      -- a collision: the next round, with one attempt less
      | live =>
          have hfree : a.slot (st.attempt + 1) ≠ .free := by rw [hslot]; decide
          have hexpired : a.slot (st.attempt + 1) ≠ .expired := by rw [hslot]; decide
          simpa only [Attempts.firstFree_succ hfree, Attempts.noneExpired_succ hexpired] using
            ih { st with attempt := st.attempt + 1 }

/-! ## The request -/

/-- The handler makes no call after the loop. -/
theorem saves_eq (hurl : req.url ≠ "") (total : ℕ) : a.saves req total =
    saveCalls ((shortenLoop req 5).trace a.backend.exec (.start (a.stores 0) total)) := by
  obtain ⟨f, hprog, hret⟩ : ∃ f : Option Response → Handler Response,
      App.shorten (some req) = shortenLoop req 5 >>= f ∧ ∀ r, ∃ response, f r = .ret response := by
    simp only [App.shorten, hurl, if_false]
    refine ⟨_, rfl, fun r => ?_⟩
    cases r with
    | some response => exact ⟨_, rfl⟩
    | none => exact ⟨_, rfl⟩
  rw [Attempts.saves, hprog, Prog.trace_bind]
  split
  · rename_i r st' hrun
    obtain ⟨response, hresponse⟩ := hret r
    rw [hresponse, Prog.trace, List.append_nil]
  · rw [List.append_nil]

/-- A request without a URL calls nothing. -/
theorem saves_of_empty (hurl : req.url = "") (total : ℕ) : a.saves req total = [] := by
  simp [Attempts.saves, App.shorten, hurl, Prog.trace, saveCalls]

/-- **A request saves under the first free code, and gives up only when all five are taken,
exactly when it has a URL and none of the codes before the first free one is held by an
expired link.** -/
theorem shorten_saves_first_free_iff (a : Attempts) (req : UrlShortenRequest) (total : ℕ) :
    SavesFirstFree a req (a.saves req total) ↔
      ∀ i, a.FirstFree 0 5 i → req.url ≠ "" ∧ a.NoneExpired 0 i := by
  constructor
  · intro h i hi
    have hsaves := h.first i hi
    have hurl : req.url ≠ "" := by
      intro hurl
      rw [saves_of_empty hurl] at hsaves
      cases hsaves
    refine ⟨hurl, ?_⟩
    rw [saves_eq hurl] at hsaves
    -- It saved once, so the loop came to a free code with no expired one before it.
    rcases saveCalls_loop a req 5 (.start (a.stores 0) total) with
      ⟨j, hj, hnone, -⟩ | ⟨-, hempty⟩
    · rwa [hi.unique hj]
    · rw [hempty] at hsaves
      cases hsaves
  · intro h
    have hfirst : ∀ i, a.FirstFree 0 5 i →
        a.saves req total = [(a.codes i, req.url, req.expiresAt)] := by
      intro i hi
      obtain ⟨hurl, hnone⟩ := h i hi
      rw [saves_eq hurl]
      rcases saveCalls_loop a req 5 (.start (a.stores 0) total) with
        ⟨j, hj, -, hsaves⟩ | ⟨hnever, -⟩
      · rw [hsaves, hi.unique hj]
      · exact absurd hnone (hnever i hi)
    -- Nothing saved: were a code free, the first free one would have been.
    refine ⟨hfirst, fun hempty i hpos hle hfree => ?_⟩
    obtain ⟨j, hj⟩ := Attempts.exists_firstFree (n := 5) hpos (by omega) hfree
    rw [hfirst j hj] at hempty
    cases hempty

end

/-! ### An expired link in the way -/

/-- A memory store with one link, which has expired. -/
def oneExpired : Store :=
  .memory (Function.update (fun _ => none) "aZ3kQ9x"
    (some ⟨"https://example.org", some ⟨.zero, true⟩⟩))

/-- The first code is that of the expired link, the others are free. -/
def expiredFirst : Attempts where
  codes i := if i = 1 then "aZ3kQ9x" else "bY4lR0w"
  stores _ := oneExpired
  clock _ := ⟨0, 0⟩

/-- **The request fails at its first attempt**, with four left and free codes to come: the
first code is held by a link that has expired, the lookup says so with an error, and the
loop ends. -/
theorem gives_up_on_expired :
    expiredFirst.slot 1 = .expired ∧ expiredFirst.slot 2 = .free ∧
      expiredFirst.saves exampleRequest 0 = [] ∧
      ¬ SavesFirstFree expiredFirst exampleRequest (expiredFirst.saves exampleRequest 0) := by
  have hempty : expiredFirst.saves exampleRequest 0 = [] := by decide
  have hfree : expiredFirst.slot 2 = .free := by decide
  refine ⟨by decide, hfree, hempty, fun h => ?_⟩
  exact h.none hempty 2 (by omega) (by omega) hfree

end EngineeringLab.Shortener
