/-
Whether every generated short code can be reached: `GenerateShortKey`
(`shortcode/generate.go`) against the routes of `main`.

The codes and the fixed routes share the top of the path. Of the fixed routes for `GET`,
`/health` has six letters where a code has seven characters, and `/shorten` is for `POST`
only. `/metrics` is a code: the seven draws that spell it give a link that the metrics
handler answers for. All other draws give a code that `RedirectHandler` gets
(`generated_reachable_iff`).
-/
import EngineeringLab.Web.ServeMux
import Mathlib.Data.List.Nodup

set_option autoImplicit false

open Web

namespace EngineeringLab.Shortener

/-! ## The generator -/

namespace Shortcode

def charset : String := "abcdefghijklmnopqrstuvwxyzABCDEFGHIJKLMNOPQRSTUVWXYZ0123456789"

/-- `charset[num]`. -/
def charsetAt (num : Fin 62) : Char := charset.toList.get (num.cast (by decide))

/-- `GenerateShortKey`, with `randInt i` what the `i`-th `rand.Int` gives: a number below
the length of the charset, or an error. -/
def generateShortKey (randInt : ℕ → Except String (Fin 62)) : Except String String := do
  let result ← (List.range 7).mapM fun i => do
    let num ← randInt i
    return charsetAt num
  return String.ofList result

/-- A loop that ends without an error has had none in any round, and its results are those
of the rounds. -/
theorem mapM_eq_ok {α β : Type} {f : ℕ → Except String α} {g : α → β} (is : List ℕ) {bs : List β}
    (h : (is.mapM fun i => do let a ← f i; return g a) = Except.ok bs) :
    ∃ as : List α, is.map f = as.map Except.ok ∧ bs = as.map g := by
  induction is generalizing bs with
  | nil =>
      cases h
      exact ⟨[], rfl, rfl⟩
  | cons i is ih =>
      rw [List.mapM_cons] at h
      rcases hf : f i with err | a
      · rw [hf] at h
        cases h
      · rcases hrest : (is.mapM fun i => do let a ← f i; return g a) with err | rest
        · rw [hf, hrest] at h
          cases h
        · rw [hf, hrest] at h
          cases h
          obtain ⟨as, has, rfl⟩ := ih hrest
          refine ⟨a :: as, ?_, rfl⟩
          rw [List.map_cons, List.map_cons, hf, has]

section

variable {randInt : ℕ → Except String (Fin 62)} {c : String}

/-- A code is the seven characters that were drawn. -/
theorem exists_draws (h : generateShortKey randInt = .ok c) :
    ∃ nums : List (Fin 62), (List.range 7).map randInt = nums.map .ok ∧
      c.toList = nums.map charsetAt := by
  unfold generateShortKey at h
  rcases hloop : ((List.range 7).mapM fun i => do let a ← randInt i; return charsetAt a) with
    err | result
  · rw [hloop] at h
    cases h
  · rw [hloop] at h
    cases h
    obtain ⟨nums, hnums, hresult⟩ := mapM_eq_ok _ hloop
    refine ⟨nums, hnums, ?_⟩
    rw [String.toList_ofList, hresult]

theorem charsetAt_injective : Function.Injective charsetAt := by
  have hnodup : charset.toList.Nodup := by decide
  intro a b hab
  have hcast := List.nodup_iff_injective_get.mp hnodup hab
  have hval := congrArg Fin.val hcast
  exact Fin.ext hval

theorem charsetAt_ne_slash (num : Fin 62) : charsetAt num ≠ '/' := by
  revert num
  decide

theorem slash_notMem (h : generateShortKey randInt = .ok c) : '/' ∉ c.toList := by
  obtain ⟨nums, -, hc⟩ := exists_draws h
  rw [hc]
  intro hmem
  obtain ⟨num, -, hslash⟩ := List.mem_map.mp hmem
  exact charsetAt_ne_slash num hslash

theorem length_eq (h : generateShortKey randInt = .ok c) : c.toList.length = 7 := by
  obtain ⟨nums, hnums, hc⟩ := exists_draws h
  have hlen := congrArg List.length hnums
  rw [List.length_map, List.length_map, List.length_range] at hlen
  rw [hc, List.length_map]
  exact hlen.symm

end

end Shortcode

/-! ## The routes -/

/-- The handlers that `main` registers. -/
inductive Route where
  | healthHandler
  | shorten
  | redirectHandler
  | statsHandler
  | metricsHandler
  | ipWhitelist (next : Route) (allowedIPs : List String)
  deriving DecidableEq, Repr

/-- The mux that `main` sets up. -/
def mainMux : Option (ServeMux Route) := do
  let mux := ServeMux.new
  let mux ← mux.handle "GET /health" .healthHandler
  let mux ← mux.handle "POST /shorten" .shorten
  let mux ← mux.handle "GET /\x7bcode\x7d" .redirectHandler
  let mux ← mux.handle "GET /stats/\x7bcode\x7d" .statsHandler
  mux.handle "GET /metrics" (.ipWhitelist .metricsHandler ["127.0.0.1", "::1"])

/-- What is then registered. -/
def mainEntries : List (Pattern × Route) :=
  [(⟨some "GET", [.literal "health"]⟩, .healthHandler),
   (⟨some "POST", [.literal "shorten"]⟩, .shorten),
   (⟨some "GET", [.wildcard "code"]⟩, .redirectHandler),
   (⟨some "GET", [.literal "stats", .wildcard "code"]⟩, .statsHandler),
   (⟨some "GET", [.literal "metrics"]⟩, .ipWhitelist .metricsHandler ["127.0.0.1", "::1"])]

/-- `main` registers without a panic. -/
theorem mainMux_entries : mainMux.map (·.entries) = some mainEntries := by
  decide +kernel

/-- A request for one segment matches the literal routes of that segment, and the
wildcard. -/
theorem bind_single {c : String} (hslash : '/' ∉ c.toList) (method : String) (seg : Segment) :
    Pattern.bind ⟨some method, [seg]⟩ ⟨method, "/" ++ c⟩ = bindSegments [seg] [c] := by
  unfold Pattern.bind
  rw [pathSegments_single hslash]
  simp [methodMatches]

theorem eq_of_bind_literal {c : String} (hslash : '/' ∉ c.toList) {method text : String}
    (h : (Pattern.bind ⟨some method, [.literal text]⟩ ⟨method, "/" ++ c⟩).isSome = true) :
    text = c := by
  rw [bind_single hslash, bindSegments] at h
  by_contra hne
  rw [if_neg hne] at h
  cases h

/-- Of the routes that match a request for seven characters only `/metrics` is more specific
than the wildcard. -/
theorem covers_redirect {c : String} (hslash : '/' ∉ c.toList) (hlen : c.toList.length = 7)
    (hmetrics : c ≠ "metrics") : ∀ e ∈ mainEntries,
      (e.1.bind ⟨"GET", "/" ++ c⟩).isSome = true →
        e.1.covers ⟨some "GET", [.wildcard "code"]⟩ = true := by
  intro e he hmatch
  simp only [mainEntries, List.mem_cons, List.not_mem_nil, or_false] at he
  rcases he with rfl | rfl | rfl | rfl | rfl
  · -- six letters against seven characters
    rw [← eq_of_bind_literal hslash hmatch] at hlen
    revert hlen
    decide
  · -- another method
    simp [Pattern.bind, methodMatches] at hmatch
  · decide +kernel
  · -- two segments against one
    simp [Pattern.bind, pathSegments_single hslash, bindSegments] at hmatch
  · exact absurd (eq_of_bind_literal hslash hmatch).symm hmetrics

/-! ## Codes and routes -/

/-- The draws that spell `metrics`. -/
def metricsDraws : List (Fin 62) := [12, 4, 19, 17, 8, 2, 18]

theorem Shortcode.eq_metrics_iff {randInt : ℕ → Except String (Fin 62)} {c : String}
    (h : generateShortKey randInt = .ok c) :
    c = "metrics" ↔ (List.range 7).map randInt = metricsDraws.map .ok := by
  obtain ⟨nums, hnums, hc⟩ := exists_draws h
  have hspelled : "metrics".toList = metricsDraws.map charsetAt := by decide +kernel
  have hok : Function.Injective (Except.ok : Fin 62 → Except String (Fin 62)) :=
    fun _ _ heq => Except.ok.inj heq
  rw [hnums, hok.list_map.eq_iff, ← charsetAt_injective.list_map.eq_iff, ← hc, ← hspelled,
    String.toList_inj]

/-- **Every code but one is reachable**: `GET /c` goes to `RedirectHandler`, with `c` as the
code, unless `c` was drawn as `metrics`. -/
theorem generated_reachable_iff {randInt : ℕ → Except String (Fin 62)} {c : String}
    (h : Shortcode.generateShortKey randInt = .ok c) :
    (mainMux.bind fun mux => mux.handler ⟨"GET", "/" ++ c⟩) =
        some (.redirectHandler, [("code", c)]) ↔
      (List.range 7).map randInt ≠ metricsDraws.map .ok := by
  obtain ⟨mux, hmux, hentries⟩ := Option.map_eq_some_iff.mp mainMux_entries
  have hslash := Shortcode.slash_notMem h
  have hlen := Shortcode.length_eq h
  rw [hmux, Option.bind_some, ServeMux.handler_eq_some_iff, hentries, ne_eq,
    ← Shortcode.eq_metrics_iff h]
  constructor
  · rintro ⟨p, hp, -, hmost⟩ rfl
    -- the literal route is not covered by the wildcard it beats
    have hcovers := hmost (⟨some "GET", [.literal "metrics"]⟩,
      .ipWhitelist .metricsHandler ["127.0.0.1", "::1"]) (by simp [mainEntries]) (by decide +kernel)
    have hp' : p = ⟨some "GET", [.wildcard "code"]⟩ := by simpa [mainEntries] using hp
    rw [hp'] at hcovers
    revert hcovers
    decide +kernel
  · intro hmetrics
    have hnonempty : c ≠ "" := by
      rintro rfl
      simp at hlen
    refine ⟨⟨some "GET", [.wildcard "code"]⟩, by simp [mainEntries], ?_,
      covers_redirect hslash hlen hmetrics⟩
    rw [bind_single hslash, bindSegments, if_neg hnonempty]
    rfl

/-- The draws 0, 1, 2, … spell `abcdefg`, which is no fixed route, and the code's link can
be followed. -/
theorem generated_reachable_iff_example :
    (mainMux.bind fun mux => mux.handler ⟨"GET", "/abcdefg"⟩) =
      some (.redirectHandler, [("code", "abcdefg")]) := by
  have hcode : Shortcode.generateShortKey (fun i => .ok (Fin.ofNat 62 i)) = .ok "abcdefg" := by
    decide +kernel
  have hpath : "/" ++ "abcdefg" = "/abcdefg" := by decide +kernel
  rw [← hpath]
  refine (generated_reachable_iff hcode).mpr ?_
  decide +kernel

/-- **A code nobody can follow**: drawn as `metrics`, it is answered by the metrics handler.
The client was given the short URL like any other. -/
theorem metrics_not_reachable : ∃ randInt : ℕ → Except String (Fin 62),
    Shortcode.generateShortKey randInt = .ok "metrics" ∧
    (mainMux.bind fun mux => mux.handler ⟨"GET", "/metrics"⟩) =
      some (.ipWhitelist .metricsHandler ["127.0.0.1", "::1"], []) := by
  refine ⟨fun i => .ok (metricsDraws.getD i 0), ?_, ?_⟩
  · decide +kernel
  · decide +kernel

end EngineeringLab.Shortener
