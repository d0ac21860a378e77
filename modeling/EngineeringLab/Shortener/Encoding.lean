/-
`encoding/json` on the values of the shortener: the body of a request to shorten a URL, and the
entries that `CachedStore` puts into Redis.

Both are objects with a URL and an optional time (`Fields`), read member by member: names match in
any case, the last one of a name wins, others are passed over, and the first time that does not
parse ends the reading. What a request can ask for is therefore a time with a year of four digits
and an offset of whole minutes, up to 25 hours (`decodeRequest_accepts`), while `json.Marshal`
refuses offsets of 24 hours or more. `CachedStore.Save` ignores that error and caches the empty
text, of which `Lookup` makes a link to nowhere (`cached_as_requested_iff`).

Names that match in any case, and members that are passed over, are Go's rules for structs;
they matter because a body may have both `url` and `URL`. The two objects differ in the
names of their members and in what an absent time means, and share everything else, so the
reading is one function with the names as parameters.
-/
import EngineeringLab.Calendar.Rfc3339
import EngineeringLab.Shortener.Shorten
import EngineeringLab.Web.Json

set_option autoImplicit false

open Calendar Web.Json

namespace EngineeringLab.Shortener

/-! ## Times -/

def Time.stamp (t : Time) : Stamp := ⟨t.instant, t.offset⟩

def Time.ofStamp (t : Stamp) : Time := ⟨t.instant, t.offset⟩

/-- `Time.MarshalJSON`. -/
def Time.marshalJSON (t : Time) : Except String Value :=
  t.stamp.format.map fun text => .string (quote text)

/-- `Time.UnmarshalJSON` on a string; it looks at the literal, escapes and all. -/
def Time.unmarshalJSON (lit : Literal) : Option Time := (Stamp.parse (Literal.text lit)).map ofStamp

/-! ## Structs -/

/-- The names of the two fields of a struct. -/
structure Fields where
  url : String
  expiresAt : String

/-- `types.LookupResult` has no tags. -/
def LookupResult.fields : Fields := ⟨"URL", "ExpiresAt"⟩

/-- `urlShortenRequest`. -/
def UrlShortenRequest.fields : Fields := ⟨"url", "expires_at"⟩

/-- `foldRune`, as far as names of ASCII letters can tell: `ſ` and the Kelvin sign are letters in
another case, too. -/
def foldRune (c : Char) : Char :=
  if c = '\u017F' then 'S' else if c = '\u212A' then 'K' else c.toUpper

/-- The name of a field, in any case. -/
def Names (key : Literal) (field : String) : Prop :=
  (unquote key).map foldRune = field.toList.map foldRune

instance (key : Literal) (field : String) : Decidable (Names key field) :=
  inferInstanceAs (Decidable (_ = _))

/-- A struct that is being read; `failed` when there has been an error. -/
structure Decoding where
  url : String
  expiresAt : Option Time
  failed : Bool
  deriving DecidableEq

/-- The zero value. -/
def Decoding.zero : Decoding := ⟨"", none, false⟩

namespace Fields

/-- One member, and whether the reading goes on. A value of the wrong kind is an error that waits
until the end; an error of `Time.UnmarshalJSON` does not wait. -/
def setMember (fields : Fields) (d : Decoding) : Literal × Value → Decoding × Bool
  | (key, v) =>
    if Names key fields.url then
      match v with
      | .null => (d, true)
      | .string lit => ({ d with url := String.ofList (unquote lit) }, true)
      | _ => ({ d with failed := true }, true)
    else if Names key fields.expiresAt then
      match v with
      | .null => ({ d with expiresAt := none }, true)
      | .string lit =>
        match Time.unmarshalJSON lit with
        | some t => ({ d with expiresAt := some t }, true)
        | none => ({ d with expiresAt := some .zero, failed := true }, false)
      | _ => ({ d with expiresAt := some (d.expiresAt.getD .zero), failed := true }, false)
    else (d, true)

def setMembers (fields : Fields) (d : Decoding) : List (Literal × Value) → Decoding
  | [] => d
  | m :: ms =>
    if (fields.setMember d m).2 then fields.setMembers (fields.setMember d m).1 ms
    else (fields.setMember d m).1

/-- `null` leaves a struct as it is. -/
def set (fields : Fields) : Value → Decoding
  | .object ms => fields.setMembers .zero ms
  | .null => .zero
  | _ => { Decoding.zero with failed := true }

end Fields

/-! ## The body of a request -/

/-- `json.NewDecoder(r.Body).Decode(&req)`, without its error: the value at the front of the
body, whatever stands behind it. -/
def decodeRequest (body : String) : Option UrlShortenRequest := do
  let (v, _) ← takeValue (body.toList.length + 1) body.toList
  let d := UrlShortenRequest.fields.set v
  if d.failed then none else some ⟨d.url, d.expiresAt⟩

/-! ## The entries of the cache -/

/-- `types.LookupResult` as a value. -/
def LookupResult.value (r : LookupResult) : Except String Value := do
  let expiresAt ← match r.expiresAt with
    | none => pure Value.null
    | some t => t.marshalJSON
  return .object [(quote "URL".toList, .string (quote r.url.toList)),
    (quote "ExpiresAt".toList, expiresAt)]

/-- `json.Marshal`. -/
def LookupResult.marshal (r : LookupResult) : Except String String :=
  r.value.map fun v => String.ofList v.text

/-- `json.Unmarshal` into a new `LookupResult`, its error being ignored. A text that is no JSON
value leaves the zero value. -/
def LookupResult.unmarshal (data : String) : LookupResult :=
  match decode data.toList with
  | none => ⟨"", none⟩
  | some v => ⟨(LookupResult.fields.set v).url, (LookupResult.fields.set v).expiresAt⟩

/-- `encoding/json`, as `CachedStore` uses it. -/
def encodingJson : Json where
  marshal r := match r.marshal with
    | .ok data => data
    | .error _ => ""
  unmarshal := LookupResult.unmarshal

/-! ## What a request can ask for -/

/-- A time that some text stands for. -/
def Time.Readable (t : Time) : Prop := ∃ text, Stamp.parse text = some t.stamp

theorem Time.readable_of_unmarshalJSON {lit : Literal} {t : Time}
    (h : Time.unmarshalJSON lit = some t) : t.Readable := by
  unfold unmarshalJSON at h
  obtain ⟨stamp, hstamp, rfl⟩ := Option.map_eq_some_iff.mp h
  exact ⟨_, hstamp⟩

/-- What has been read so far, if there has been no error. -/
def Decoding.Sound (d : Decoding) : Prop :=
  d.failed = false → ∀ t, d.expiresAt = some t → t.Readable

theorem Decoding.sound_zero : Decoding.zero.Sound := by
  intro _ t ht
  cases ht

theorem Fields.setMember_sound (fields : Fields) {d : Decoding} (h : d.Sound)
    (m : Literal × Value) : (fields.setMember d m).1.Sound := by
  obtain ⟨key, v⟩ := m
  unfold setMember
  dsimp only
  split_ifs with hurl hexpires
  · cases v with
    | string lit => exact h
    | null => exact h
    | bool b => rintro ⟨⟩
    | number n => rintro ⟨⟩
    | array items => rintro ⟨⟩
    | object ms => rintro ⟨⟩
  · cases v with
    | string lit =>
        dsimp only
        cases htime : Time.unmarshalJSON lit with
        | none => rintro ⟨⟩
        | some t =>
            rintro - _ ⟨⟩
            exact Time.readable_of_unmarshalJSON htime
    | null => rintro - _ ⟨⟩
    | bool b => rintro ⟨⟩
    | number n => rintro ⟨⟩
    | array items => rintro ⟨⟩
    | object ms => rintro ⟨⟩
  · exact h

theorem Fields.setMembers_sound (fields : Fields) {d : Decoding} (h : d.Sound)
    (ms : List (Literal × Value)) : (fields.setMembers d ms).Sound := by
  induction ms generalizing d with
  | nil => exact h
  | cons m ms ih =>
      have hm := fields.setMember_sound h m
      unfold setMembers
      split_ifs with hgoes
      · exact ih hm
      · exact hm

theorem Fields.set_sound (fields : Fields) (v : Value) : (fields.set v).Sound := by
  cases v with
  | object ms => exact fields.setMembers_sound Decoding.sound_zero ms
  | null => exact Decoding.sound_zero
  | bool b => rintro ⟨⟩
  | number n => rintro ⟨⟩
  | string lit => rintro ⟨⟩
  | array items => rintro ⟨⟩

theorem decodeRequest_accepts {body : String} {req : UrlShortenRequest}
    (h : decodeRequest body = some req) : ∀ t ∈ req.expiresAt, t.Readable := by
  unfold decodeRequest at h
  rw [Option.bind_eq_bind, Option.bind_eq_some_iff] at h
  obtain ⟨⟨v, rest⟩, -, h⟩ := h
  dsimp only at h
  split_ifs at h with hfailed
  cases h
  intro t ht
  exact UrlShortenRequest.fields.set_sound v (by simpa using hfailed) t ht

/-! ## What the cache gives back -/

theorem isSafe_of_mem_text {t : Stamp} {c : Char} (h : c ∈ t.text) : IsSafe c := by
  rcases Stamp.mem_text h with hdigit | hmem
  · have hrange := Char.isDigit_iff_toNat.mp hdigit
    have hlow : '0'.toNat = 48 := rfl
    have hhigh : '9'.toNat = 57 := rfl
    refine ⟨⟨?_, ?_, by omega⟩, ?_⟩
    · rintro rfl
      revert hdigit
      decide
    · rintro rfl
      revert hdigit
      decide
    · intro hspecial
      simp only [List.mem_cons, List.not_mem_nil, or_false] at hspecial
      rcases hspecial with rfl | rfl | rfl | rfl | rfl <;> exact absurd hdigit (by decide)
  · simp only [List.mem_cons, List.not_mem_nil, or_false] at hmem
    rcases hmem with rfl | rfl | rfl | rfl | rfl | rfl <;> decide

/-- A time comes back if its text is read as it was written. -/
theorem Time.unmarshalJSON_quote (t : Stamp) :
    Time.unmarshalJSON (quote t.text) = (Stamp.parse t.text).map ofStamp := by
  unfold unmarshalJSON
  rw [Literal.text_quote fun c hc => isSafe_of_mem_text hc]

theorem LookupResult.set_value (url : List Char) (v : Value) :
    LookupResult.fields.set (.object [(quote "URL".toList, .string (quote url)),
      (quote "ExpiresAt".toList, v)]) =
    (LookupResult.fields.setMember ⟨String.ofList url, none, false⟩
      (quote "ExpiresAt".toList, v)).1 := by
  have hurl : Names (quote "URL".toList) LookupResult.fields.url := by decide
  rw [Fields.set, Fields.setMembers, Fields.setMember, if_pos hurl]
  dsimp only
  rw [if_pos rfl, unquote_quote, Fields.setMembers]
  split_ifs
  · rfl
  · rfl

theorem LookupResult.setMember_null (d : Decoding) :
    (LookupResult.fields.setMember d (quote "ExpiresAt".toList, .null)).1 =
      { d with expiresAt := none } := by
  have hurl : ¬ Names (quote "ExpiresAt".toList) LookupResult.fields.url := by decide
  have hexpires : Names (quote "ExpiresAt".toList) LookupResult.fields.expiresAt := by decide
  rw [Fields.setMember, if_neg hurl, if_pos hexpires]

theorem LookupResult.setMember_time (d : Decoding) {lit : Literal} {t : Time}
    (h : Time.unmarshalJSON lit = some t) :
    (LookupResult.fields.setMember d (quote "ExpiresAt".toList, .string lit)).1 =
      { d with expiresAt := some t } := by
  have hurl : ¬ Names (quote "ExpiresAt".toList) LookupResult.fields.url := by decide
  have hexpires : Names (quote "ExpiresAt".toList) LookupResult.fields.expiresAt := by decide
  rw [Fields.setMember, if_neg hurl, if_pos hexpires]
  simp only [h]

/-- A time that can be written. -/
def Time.Writable (t : Time) : Prop := t.stamp.format = .ok t.stamp.text

/-- A time that is read as it is written. -/
def Time.Exact (t : Time) : Prop := t.Writable ∧ t.offset % 60 = 0

theorem Time.writable_iff {t : Time} :
    t.Writable ↔ (0 ≤ t.stamp.wall.date.year ∧ t.stamp.wall.date.year ≤ 9999) ∧
      (t.offset.tdiv 60).natAbs / 60 < 24 := by
  unfold Writable
  rw [Stamp.format_eq_ok_iff]
  exact ⟨fun h => ⟨h.1, h.2.1⟩, fun h => ⟨h.1, h.2, rfl⟩⟩

theorem encodingJson_permanent (url : String) :
    encodingJson.unmarshal (encodingJson.marshal ⟨url, none⟩) = ⟨url, none⟩ := by
  have hmarshal : encodingJson.marshal ⟨url, none⟩ = String.ofList (Value.text (.object
      [(quote "URL".toList, .string (quote url.toList)), (quote "ExpiresAt".toList, .null)])) := rfl
  rw [hmarshal]
  unfold encodingJson LookupResult.unmarshal
  dsimp only
  rw [String.toList_ofList, decode_text]
  dsimp only
  rw [LookupResult.set_value, LookupResult.setMember_null, String.ofList_toList]

/-- A time that can be written is read, but for the seconds of its offset. -/
theorem encodingJson_writable (url : String) {t : Time} (h : t.Writable) :
    ∃ t', Stamp.parse t.stamp.text = some (Time.stamp t') ∧
      encodingJson.unmarshal (encodingJson.marshal ⟨url, some t⟩) = ⟨url, some t'⟩ := by
  obtain ⟨hyear, hzone⟩ := Time.writable_iff.mp h
  have hparse := Stamp.parse_text hyear hzone
  generalize (⟨_, _⟩ : Stamp) = stamp at hparse
  have htime : Time.unmarshalJSON (quote t.stamp.text) = some (.ofStamp stamp) := by
    rw [Time.unmarshalJSON_quote, hparse, Option.map_some]
  have hmarshal : encodingJson.marshal ⟨url, some t⟩ = String.ofList (Value.text (.object
      [(quote "URL".toList, .string (quote url.toList)),
        (quote "ExpiresAt".toList, .string (quote t.stamp.text))])) := by
    unfold encodingJson LookupResult.marshal LookupResult.value Time.marshalJSON
    dsimp only
    rw [h]
    rfl
  refine ⟨.ofStamp stamp, hparse, ?_⟩
  rw [hmarshal]
  unfold encodingJson LookupResult.unmarshal
  dsimp only
  rw [String.toList_ofList, decode_text]
  dsimp only
  rw [LookupResult.set_value, LookupResult.setMember_time _ htime, String.ofList_toList]

/-- The error of `json.Marshal` leaves an empty entry, which is read as no link at all. -/
theorem encodingJson_not_writable (url : String) {t : Time} (h : ¬ t.Writable) :
    encodingJson.unmarshal (encodingJson.marshal ⟨url, some t⟩) = ⟨"", none⟩ := by
  have hmarshal : encodingJson.marshal ⟨url, some t⟩ = "" := by
    cases hformat : t.stamp.format with
    | ok text =>
        obtain ⟨-, -, rfl⟩ := Stamp.format_eq_ok_iff.mp hformat
        exact absurd hformat h
    | error err =>
        unfold encodingJson LookupResult.marshal LookupResult.value Time.marshalJSON
        dsimp only
        rw [hformat]
        rfl
  rw [hmarshal]
  rfl

/-- **An entry of the cache** is read as the link it was made for, if and only if the expiry is
one that is read as it is written. -/
theorem encodingJson_round_trip_iff (r : LookupResult) :
    encodingJson.unmarshal (encodingJson.marshal r) = r ↔ ∀ t ∈ r.expiresAt, t.Exact := by
  obtain ⟨url, expiresAt⟩ := r
  cases expiresAt with
  | none =>
      rw [encodingJson_permanent]
      simp
  | some t =>
      simp only [Option.mem_some, forall_eq']
      by_cases hwritable : t.Writable
      · obtain ⟨t', hparse, hread⟩ := encodingJson_writable url hwritable
        have hexact := Stamp.parse_format_iff hwritable
        rw [hread, Time.Exact, and_iff_right hwritable, LookupResult.mk.injEq, and_iff_right rfl,
          Option.some.injEq]
        rw [hparse, Option.some.injEq] at hexact
        constructor
        · intro heq
          exact hexact.mp (congrArg Time.stamp heq)
        · intro hminutes
          exact congrArg Time.ofStamp (hexact.mpr hminutes)
      · rw [encodingJson_not_writable url hwritable]
        constructor
        · rintro ⟨⟩
        · intro hexact
          exact absurd hexact.1 hwritable

/-- **What was asked for and what is cached**: every request that `Shorten` accepts is cached as
a link that is read as it was asked for, unless its expiry has an offset of a day or more; then
what is cached is read as a link to nowhere. -/
theorem cached_as_requested_iff {body : String} {req : UrlShortenRequest}
    (h : decodeRequest body = some req) :
    (encodingJson.unmarshal (encodingJson.marshal ⟨req.url, req.expiresAt⟩) =
        ⟨req.url, req.expiresAt⟩ ↔ ∀ t ∈ req.expiresAt, t.offset.natAbs < 86400) ∧
      ∀ t ∈ req.expiresAt, 86400 ≤ t.offset.natAbs →
        encodingJson.unmarshal (encodingJson.marshal ⟨req.url, req.expiresAt⟩) = ⟨"", none⟩ := by
  -- what was parsed has a year that can be written, so only the offset can be in the way
  have hwritable : ∀ t ∈ req.expiresAt, t.Writable ↔ t.offset.natAbs < 86400 := by
    intro t ht
    obtain ⟨text, hparse⟩ := decodeRequest_accepts h t ht
    exact Stamp.format_of_parse hparse
  constructor
  · rw [encodingJson_round_trip_iff]
    apply forall₂_congr
    intro t ht
    obtain ⟨text, hparse⟩ := decodeRequest_accepts h t ht
    obtain ⟨-, hminutes, -⟩ := Stamp.of_parse hparse
    rw [← hwritable t ht, Time.Exact]
    exact and_iff_left hminutes
  · intro t ht hday
    rw [Option.mem_def.mp ht]
    apply encodingJson_not_writable
    rw [hwritable t ht]
    omega

/-- The body of a request for a time that is 24 hours ahead of UTC. -/
def dayAhead : String :=
  "\x7b\"url\":\"https://example.com\",\"expires_at\":\"2030-01-01T00:00:00+24:00\"\x7d"

/-- Such a link is cached as a link to nowhere. -/
theorem cached_as_requested_iff_example :
    decodeRequest dayAhead = some ⟨"https://example.com", some ⟨1893369600000000000, 86400⟩⟩ ∧
      encodingJson.unmarshal (encodingJson.marshal
        ⟨"https://example.com", some ⟨1893369600000000000, 86400⟩⟩) = ⟨"", none⟩ := by
  have hdecode : decodeRequest dayAhead =
      some ⟨"https://example.com", some ⟨1893369600000000000, 86400⟩⟩ := by decide +kernel
  exact ⟨hdecode, (cached_as_requested_iff hdecode).2 _ rfl (by decide)⟩

end EngineeringLab.Shortener
