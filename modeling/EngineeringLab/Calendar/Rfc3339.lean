/-
Timestamps as text: RFC 3339, as Go's `time` writes and reads it.

`Stamp.format` is `Time.MarshalJSON` without its quotes: it refuses years that have not four
digits and offsets of a day or more, and drops the seconds of an offset. `Stamp.parse` is
`Time.UnmarshalJSON` without its quotes. It is the more liberal of the two: an hour may have one
digit, a comma may stand before the fraction, and an offset may be of 24 hours and 60 minutes.

What is written is read as it was, down to the nanosecond, if the offset was in whole minutes
(`Stamp.parse_format_iff`). What is read can be written again, unless its offset is a day or more
(`Stamp.format_of_parse`).

Both functions are lists of small readers and writers, one for each field, and the proofs go
field by field: what is written is read with anything behind it. The fraction is the one
that needs care, for trailing zeros are left out and any number of digits may be read, of
which nine count.
-/
import EngineeringLab.Calendar.Gregorian
import Mathlib.Data.List.DropRight
import Mathlib.Tactic.Tauto

set_option autoImplicit false

namespace Calendar

/-! ## Numbers -/

/-- The last `width` decimal digits of `n`, with zeros in front where there are fewer. What
does not fit is left out, so the number is bounded where this is used. -/
def digits : ℕ → ℕ → List Char
  | 0, _ => []
  | width + 1, n => digits width (n / 10) ++ [(n % 10).digitChar]

theorem length_digits (width n : ℕ) : (digits width n).length = width := by
  induction width generalizing n with
  | zero => rfl
  | succ width ih => rw [digits, List.length_append, ih, List.length_singleton]

theorem isDigit_digits {width n : ℕ} {c : Char} (h : c ∈ digits width n) : c.isDigit := by
  induction width generalizing n with
  | zero => simp [digits] at h
  | succ width ih =>
      rw [digits, List.mem_append, List.mem_singleton] at h
      rcases h with h | rfl
      · exact ih h
      · rw [Nat.isDigit_digitChar, decide_eq_true_eq]
        omega

theorem ofDigitChars_digits {width n : ℕ} (h : n < 10 ^ width) :
    Nat.ofDigitChars 10 (digits width n) 0 = n := by
  induction width generalizing n with
  | zero =>
      rw [digits, Nat.ofDigitChars_nil]
      omega
  | succ width ih =>
      have hquot : n / 10 < 10 ^ width := by
        rw [Nat.div_lt_iff_lt_mul (by omega)]
        omega
      rw [digits, Nat.ofDigitChars_append, ih hquot,
        Nat.ofDigitChars_cons_digitChar_of_lt_ten (by omega), Nat.ofDigitChars_nil]
      omega

theorem ofDigitChars_lt {s : List Char} (h : ∀ c ∈ s, c.isDigit) :
    Nat.ofDigitChars 10 s 0 < 10 ^ s.length := by
  induction s using List.reverseRecOn with
  | nil => simp
  | append_singleton s c ih =>
      have hs := ih fun d hd => h d (List.mem_append_left _ hd)
      have hc : c.toNat ≤ '9'.toNat := (Char.isDigit_iff_toNat.mp (h c (by simp))).2
      have hdigit : c.toNat - '0'.toNat ≤ 9 := by
        have hzero : '9'.toNat = '0'.toNat + 9 := rfl
        omega
      rw [Nat.ofDigitChars_append, Nat.ofDigitChars_cons, Nat.ofDigitChars_nil,
        List.length_append, List.length_singleton, pow_succ]
      omega

/-- The number that exactly `width` digits at the front of `s` make, and what is behind
them; none if one of them is no digit. -/
def takeNumber (width : ℕ) (s : List Char) : Option (ℕ × List Char) :=
  if (s.take width).length = width ∧ (s.take width).all (·.isDigit) then
    some (Nat.ofDigitChars 10 (s.take width) 0, s.drop width)
  else none

theorem takeNumber_digits {width n : ℕ} (h : n < 10 ^ width) (rest : List Char) :
    takeNumber width (digits width n ++ rest) = some (n, rest) := by
  have hlength := length_digits width n
  have htake : (digits width n ++ rest).take width = digits width n := List.take_left' hlength
  have hdrop : (digits width n ++ rest).drop width = rest := List.drop_left' hlength
  unfold takeNumber
  have hdigits : (digits width n).all (·.isDigit) = true :=
    List.all_eq_true.mpr fun c hc => isDigit_digits hc
  rw [htake, hdrop, ofDigitChars_digits h, if_pos ⟨hlength, hdigits⟩]

theorem lt_of_takeNumber {width n : ℕ} {s rest : List Char}
    (h : takeNumber width s = some (n, rest)) : n < 10 ^ width := by
  unfold takeNumber at h
  split at h
  · next hs =>
    obtain ⟨hlength, hdigits⟩ := hs
    simp only [Option.some.injEq, Prod.mk.injEq] at h
    rw [← h.1]
    calc Nat.ofDigitChars 10 (s.take width) 0
        < 10 ^ (s.take width).length := ofDigitChars_lt (List.all_eq_true.mp hdigits)
      _ = 10 ^ width := by rw [hlength]
  · cases h

/-- The rest after the character `c`. -/
def takeChar (c : Char) : List Char → Option (List Char)
  | [] => none
  | d :: s => if d = c then some s else none

theorem takeChar_self (c : Char) (s : List Char) : takeChar c (c :: s) = some s := if_pos rfl

/-! ## Dates -/

namespace Date

/-- `2006-01-02`. -/
def text (d : Date) : List Char :=
  digits 4 d.year.toNat ++ '-' :: digits 2 d.month.toNat ++ '-' :: digits 2 d.day.toNat

def take (s : List Char) : Option (Date × List Char) := do
  let (year, s) ← takeNumber 4 s
  let s ← takeChar '-' s
  let (month, s) ← takeNumber 2 s
  let s ← takeChar '-' s
  let (day, s) ← takeNumber 2 s
  if h : (1 ≤ (month : ℤ) ∧ (month : ℤ) ≤ 12) ∧ 1 ≤ (day : ℤ) ∧ (day : ℤ) ≤ daysIn month year then
    some (⟨year, month, day, h.1, h.2⟩, s)
  else none

theorem take_text {d : Date} (h : 0 ≤ d.year ∧ d.year ≤ 9999) (rest : List Char) :
    take (d.text ++ rest) = some (d, rest) := by
  obtain ⟨year, month, day, hmonth, hday⟩ := d
  dsimp only at h
  have hdays : daysIn month year ≤ 31 := by
    unfold daysIn
    split_ifs <;> omega
  obtain ⟨year, rfl⟩ : ∃ n : ℕ, year = n := ⟨year.toNat, by omega⟩
  obtain ⟨month, rfl⟩ : ∃ n : ℕ, month = n := ⟨month.toNat, by omega⟩
  obtain ⟨day, rfl⟩ : ∃ n : ℕ, day = n := ⟨day.toNat, by omega⟩
  unfold take text
  simp only [Int.toNat_natCast, List.append_assoc, List.cons_append]
  rw [takeNumber_digits (by omega)]
  simp only [Option.bind_eq_bind, Option.bind_some, takeChar_self]
  rw [takeNumber_digits (by omega)]
  simp only [Option.bind_some, takeChar_self]
  rw [takeNumber_digits (by omega)]
  simp only [Option.bind_some]
  rw [dif_pos ⟨hmonth, hday⟩]

theorem year_of_take {s rest : List Char} {d : Date} (h : take s = some (d, rest)) :
    0 ≤ d.year ∧ d.year ≤ 9999 := by
  unfold take at h
  simp only [Option.bind_eq_bind, Option.bind_eq_some_iff] at h
  obtain ⟨⟨year, s₁⟩, hyear, s₂, -, ⟨month, s₃⟩, -, s₄, -, ⟨day, s₅⟩, -, h⟩ := h
  split at h
  · have hlt := lt_of_takeNumber hyear
    simp only [Option.some.injEq, Prod.mk.injEq] at h
    rw [← h.1]
    dsimp only
    omega
  · cases h

end Date

/-! ## Clock readings -/

/-- The nine digits that a fraction of a second stands for. -/
def nineDigits (s : List Char) : List Char := (s ++ List.replicate 9 '0').take 9

/-- A fraction with its point, without the zeros at its end. A second that is whole has
none, and not even the point is written. -/
def fractionText (nanosecond : ℕ) : List Char :=
  match (digits 9 nanosecond).rdropWhile (· == '0') with
  | [] => []
  | s => '.' :: s

/-- The nanoseconds of a fraction, and what stands behind it. Digits after the ninth are
read and do not count, and where there is no fraction nothing is read. -/
def takeFraction : List Char → ℕ × List Char
  | [] => (0, [])
  | c :: s =>
    if (c = '.' ∨ c = ',') ∧ s.head?.any Char.isDigit then
      (Nat.ofDigitChars 10 (nineDigits (s.takeWhile Char.isDigit)) 0, s.dropWhile Char.isDigit)
    else (0, c :: s)

/-- What may stand behind a fraction, so that it is read to its end and no further: no
digit, and no sign that would start a fraction where there is none. -/
def EndsFraction (s : List Char) : Prop := ∀ c ∈ s.head?, ¬ c.isDigit ∧ c ≠ '.' ∧ c ≠ ','

theorem EndsFraction.takeWhile {s : List Char} (h : EndsFraction s) :
    s.takeWhile Char.isDigit = [] := by
  cases s with
  | nil => rfl
  | cons c s => exact List.takeWhile_cons_of_neg (h c rfl).1

theorem EndsFraction.dropWhile {s : List Char} (h : EndsFraction s) :
    s.dropWhile Char.isDigit = s := by
  cases s with
  | nil => rfl
  | cons c s => exact List.dropWhile_cons_of_neg (h c rfl).1

theorem nineDigits_rdropWhile {s : List Char} (h : s.length = 9) :
    nineDigits (s.rdropWhile (· == '0')) = s := by
  have happend := List.rdropWhile_append_rtakeWhile (p := (· == '0')) (l := s)
  have hzeros : s.rtakeWhile (· == '0') = List.replicate (s.rtakeWhile (· == '0')).length '0' := by
    apply List.eq_replicate_of_mem
    intro c hc
    simpa using List.mem_rtakeWhile_imp hc
  generalize s.rdropWhile (· == '0') = front at happend
  generalize s.rtakeWhile (· == '0') = zeros at happend hzeros
  have hlength : front.length + zeros.length = 9 := by
    rw [← List.length_append, happend, h]
  have hsplit : List.replicate 9 '0' = zeros ++ List.replicate front.length '0' := by
    rw [hzeros, List.replicate_append_replicate]
    congr 1
    omega
  unfold nineDigits
  rw [hsplit, ← List.append_assoc, happend]
  exact List.take_left' h

theorem takeFraction_text {n : ℕ} (h : n < 1000000000) {rest : List Char}
    (hrest : EndsFraction rest) : takeFraction (fractionText n ++ rest) = (n, rest) := by
  have hnine := nineDigits_rdropWhile (length_digits 9 n)
  have hvalue : Nat.ofDigitChars 10 (digits 9 n) 0 = n := ofDigitChars_digits h
  have hfront := List.rdropWhile_prefix (· == '0') (digits 9 n)
  unfold fractionText
  generalize (digits 9 n).rdropWhile (· == '0') = s at hnine hfront
  cases s with
  | nil =>
      have hzero : n = 0 := by
        rw [← hvalue, ← hnine]
        decide
      rw [hzero, List.nil_append]
      cases rest with
      | nil => rfl
      | cons c rest =>
          obtain ⟨-, hdot, hcomma⟩ := hrest c rfl
          rw [takeFraction, if_neg (by simp [hdot, hcomma])]
  | cons c s =>
      have hdigits : ∀ d ∈ c :: s, d.isDigit := fun d hd => isDigit_digits (hfront.subset hd)
      -- the digits end where the fraction does
      have htake : (c :: s ++ rest).takeWhile Char.isDigit = c :: s := by
        rw [List.takeWhile_append_of_pos hdigits, hrest.takeWhile, List.append_nil]
      have hdrop : (c :: s ++ rest).dropWhile Char.isDigit = rest := by
        rw [List.dropWhile_append_of_pos hdigits, hrest.dropWhile]
      have hhead : (c :: s ++ rest).head?.any Char.isDigit := by
        simpa using hdigits c List.mem_cons_self
      dsimp only
      rw [List.cons_append, takeFraction, if_pos ⟨.inl rfl, hhead⟩, htake, hdrop, hnine, hvalue]

namespace Clock

/-- `15:04:05.999999999`. -/
def text (c : Clock) : List Char :=
  digits 2 c.hour ++ ':' :: digits 2 c.minute ++ ':' :: digits 2 c.second ++
    fractionText c.nanosecond

/-- An hour, of two digits or of one. Only the hour may be so short when a text is read, and
it is written with two. -/
def takeHour (s : List Char) : Option (ℕ × List Char) :=
  (takeNumber 2 s).orElse fun _ => takeNumber 1 s

def take (s : List Char) : Option (Clock × List Char) := do
  let (hour, s) ← takeHour s
  let s ← takeChar ':' s
  let (minute, s) ← takeNumber 2 s
  let s ← takeChar ':' s
  let (second, s) ← takeNumber 2 s
  let (nanosecond, s) := takeFraction s
  if h : hour < 24 ∧ minute < 60 ∧ second < 60 ∧ nanosecond < 1000000000 then
    some (⟨hour, minute, second, nanosecond, h.1, h.2.1, h.2.2.1, h.2.2.2⟩, s)
  else none

theorem take_text (c : Clock) {rest : List Char} (hrest : EndsFraction rest) :
    take (c.text ++ rest) = some (c, rest) := by
  obtain ⟨hour, minute, second, nanosecond, hhour, hminute, hsecond, hnano⟩ := c
  unfold take text takeHour
  simp only [List.append_assoc, List.cons_append]
  rw [takeNumber_digits (by omega)]
  simp only [Option.orElse_some, Option.bind_eq_bind, Option.bind_some, takeChar_self]
  rw [takeNumber_digits (by omega)]
  simp only [Option.bind_some, takeChar_self]
  rw [takeNumber_digits (by omega)]
  simp only [Option.bind_some, takeFraction_text hnano hrest]
  rw [dif_pos ⟨hhour, hminute, hsecond, hnano⟩]

end Clock

/-! ## Offsets -/

/-- `Z07:00`. -/
def zoneText (offset : ℤ) : List Char :=
  if offset = 0 then ['Z']
  else
    let zone := offset.tdiv 60
    (if zone < 0 then '-' else '+') :: digits 2 (zone.natAbs / 60) ++
      ':' :: digits 2 (zone.natAbs % 60)

def takeZone : List Char → Option (ℤ × List Char)
  | [] => none
  | sign :: s =>
    if sign = 'Z' then some (0, s)
    else do
      let (hour, s) ← takeNumber 2 s
      let s ← takeChar ':' s
      let (minute, s) ← takeNumber 2 s
      if 24 < hour ∨ 60 < minute then none
      else if sign = '+' then some ((hour * 60 + minute) * 60, s)
      else if sign = '-' then some (-((hour * 60 + minute) * 60), s)
      else none

theorem endsFraction_zoneText (offset : ℤ) (rest : List Char) :
    EndsFraction (zoneText offset ++ rest) := by
  unfold zoneText EndsFraction
  intro c hc
  by_cases hzero : offset = 0
  · rw [if_pos hzero] at hc
    obtain rfl : 'Z' = c := by simpa using hc
    decide
  · rw [if_neg hzero] at hc
    dsimp only at hc
    rw [List.cons_append, List.cons_append, List.head?_cons, Option.mem_some] at hc
    rw [← hc]
    split <;> decide

/-- A zone is read as it was written. The seconds of an offset are not written, so what is
read is the offset to the minute. -/
theorem takeZone_text {offset : ℤ} (h : (offset.tdiv 60).natAbs / 60 < 24) (rest : List Char) :
    takeZone (zoneText offset ++ rest) = some (offset.tdiv 60 * 60, rest) := by
  unfold zoneText
  by_cases hzero : offset = 0
  · rw [if_pos hzero, hzero]
    rfl
  · rw [if_neg hzero]
    dsimp only
    rw [List.cons_append, List.cons_append, takeZone]
    generalize offset.tdiv 60 = zone at h
    rw [if_neg (by split <;> decide)]
    simp only [List.append_assoc, List.cons_append]
    rw [takeNumber_digits (by omega)]
    simp only [Option.bind_eq_bind, Option.bind_some, takeChar_self]
    rw [takeNumber_digits (by omega)]
    simp only [Option.bind_some]
    rw [if_neg (by omega)]
    by_cases hneg : zone < 0
    · rw [if_pos hneg, if_neg (by decide), if_pos rfl]
      congr 2
      omega
    · rw [if_neg hneg, if_pos rfl]
      congr 2
      omega

theorem offset_of_takeZone {s rest : List Char} {offset : ℤ}
    (h : takeZone s = some (offset, rest)) : offset % 60 = 0 ∧ offset.natAbs ≤ 90000 := by
  cases s with
  | nil => cases h
  | cons sign s =>
      rw [takeZone] at h
      split at h
      · cases h
        decide
      · simp only [Option.bind_eq_bind, Option.bind_eq_some_iff] at h
        obtain ⟨⟨hour, s₁⟩, -, s₂, -, ⟨minute, s₃⟩, -, h⟩ := h
        dsimp only at h
        split_ifs at h <;> cases h <;> omega

/-! ## Timestamps -/

/-- An instant, in nanoseconds since the beginning of 1970, and the offset of the clock it was
read from, in seconds east of UTC. -/
structure Stamp where
  instant : ℤ
  offset : ℤ
  deriving DecidableEq, Repr

namespace Stamp

/-- What that clock shows. -/
def wall (t : Stamp) : DateTime := .ofNanos (t.instant + t.offset * 1000000000)

def text (t : Stamp) : List Char :=
  t.wall.date.text ++ 'T' :: t.wall.clock.text ++ zoneText t.offset

theorem mem_fractionText {n : ℕ} {c : Char} (h : c ∈ fractionText n) : c.isDigit ∨ c = '.' := by
  have hfront := List.rdropWhile_prefix (· == '0') (digits 9 n)
  unfold fractionText at h
  generalize (digits 9 n).rdropWhile (· == '0') = s at h hfront
  cases s with
  | nil => simp at h
  | cons d s =>
      rcases List.mem_cons.mp h with rfl | hmem
      · exact .inr rfl
      · exact .inl (isDigit_digits (hfront.subset hmem))

theorem mem_zoneText {offset : ℤ} {c : Char} (h : c ∈ zoneText offset) :
    c.isDigit ∨ c ∈ ['-', ':', 'Z', '+'] := by
  unfold zoneText at h
  split at h
  · exact .inr (by simp_all)
  · dsimp only at h
    simp only [List.cons_append, List.mem_cons, List.mem_append] at h
    rcases h with rfl | h | rfl | h
    · exact .inr (by split <;> simp)
    · exact .inl (isDigit_digits h)
    · exact .inr (by simp)
    · exact .inl (isDigit_digits h)

/-- The characters of a timestamp. -/
theorem mem_text {t : Stamp} {c : Char} (h : c ∈ t.text) :
    c.isDigit ∨ c ∈ ['-', ':', 'T', 'Z', '+', '.'] := by
  unfold text Date.text Clock.text at h
  simp only [List.mem_append, List.mem_cons] at h
  rcases h with (((h | rfl | h) | rfl | h) | rfl | ((h | rfl | h) | rfl | h) | h) | h
  · exact .inl (isDigit_digits h)
  · exact .inr (by decide)
  · exact .inl (isDigit_digits h)
  · exact .inr (by decide)
  · exact .inl (isDigit_digits h)
  · exact .inr (by decide)
  · exact .inl (isDigit_digits h)
  · exact .inr (by decide)
  · exact .inl (isDigit_digits h)
  · exact .inr (by decide)
  · exact .inl (isDigit_digits h)
  · rcases mem_fractionText h with hdigit | rfl
    · exact .inl hdigit
    · exact .inr (by decide)
  · rcases mem_zoneText h with hdigit | hmem
    · exact .inl hdigit
    · simp only [List.mem_cons, List.not_mem_nil, or_false] at hmem ⊢
      tauto

/-- The text of a timestamp, if there is one. -/
def format (t : Stamp) : Except String (List Char) :=
  if t.wall.date.year < 0 ∨ 9999 < t.wall.date.year then
    .error "year outside of range [0,9999]"
  else if 24 ≤ (t.offset.tdiv 60).natAbs / 60 then
    .error "timezone hour outside of range [0,23]"
  else .ok t.text

def parse (s : List Char) : Option Stamp := do
  let (date, s) ← Date.take s
  let s ← takeChar 'T' s
  let (clock, s) ← Clock.take s
  let (offset, s) ← takeZone s
  if s = [] then some ⟨(DateTime.mk date clock).toNanos - offset * 1000000000, offset⟩
  else none

theorem format_eq_ok_iff {t : Stamp} {s : List Char} :
    t.format = .ok s ↔ (0 ≤ t.wall.date.year ∧ t.wall.date.year ≤ 9999) ∧
      (t.offset.tdiv 60).natAbs / 60 < 24 ∧ s = t.text := by
  unfold format
  by_cases hyear : t.wall.date.year < 0 ∨ 9999 < t.wall.date.year
  · rw [if_pos hyear]
    constructor
    · intro h
      cases h
    · intro h
      omega
  · rw [if_neg hyear]
    by_cases hzone : 24 ≤ (t.offset.tdiv 60).natAbs / 60
    · rw [if_pos hzone]
      constructor
      · intro h
        cases h
      · intro h
        omega
    · rw [if_neg hzone, Except.ok.injEq]
      constructor
      · intro h
        exact ⟨by omega, by omega, h.symm⟩
      · intro h
        exact h.2.2.symm

/-- What is read of a text is the clock as it was, and the offset in whole minutes. -/
theorem parse_text {t : Stamp} (hyear : 0 ≤ t.wall.date.year ∧ t.wall.date.year ≤ 9999)
    (hzone : (t.offset.tdiv 60).natAbs / 60 < 24) :
    parse t.text = some ⟨t.wall.toNanos - t.offset.tdiv 60 * 60 * 1000000000,
      t.offset.tdiv 60 * 60⟩ := by
  have hends := endsFraction_zoneText t.offset []
  have htake := takeZone_text hzone []
  rw [List.append_nil] at hends htake
  unfold parse text
  rw [List.append_assoc, Date.take_text hyear]
  simp only [Option.bind_eq_bind, Option.bind_some, List.cons_append, takeChar_self]
  rw [Clock.take_text _ hends]
  simp only [Option.bind_some, htake, if_true]

/-- **What is written is read as it was**, if its offset is in whole minutes. -/
theorem parse_format_iff {t : Stamp} {s : List Char} (h : t.format = .ok s) :
    parse s = some t ↔ t.offset % 60 = 0 := by
  obtain ⟨hyear, hzone, rfl⟩ := format_eq_ok_iff.mp h
  obtain ⟨instant, offset⟩ := t
  rw [parse_text hyear hzone, wall, DateTime.toNanos_ofNanos]
  simp only [Option.some.injEq, Stamp.mk.injEq]
  constructor
  · intro heq
    omega
  · intro hminutes
    have hzone : offset.tdiv 60 = offset / 60 :=
      Int.tdiv_eq_ediv_of_dvd (Int.dvd_of_emod_eq_zero hminutes)
    rw [hzone]
    omega

/-- What is read is a clock with four digits for the year, and an offset in whole minutes. -/
theorem of_parse {s : List Char} {t : Stamp} (h : parse s = some t) :
    (0 ≤ t.wall.date.year ∧ t.wall.date.year ≤ 9999) ∧ t.offset % 60 = 0 ∧
      t.offset.natAbs ≤ 90000 := by
  unfold parse at h
  simp only [Option.bind_eq_bind, Option.bind_eq_some_iff] at h
  obtain ⟨⟨date, s₁⟩, hdate, s₂, -, ⟨clock, s₃⟩, -, ⟨offset, s₄⟩, hzone, h⟩ := h
  split at h
  · cases h
    obtain ⟨hminutes, hle⟩ := offset_of_takeZone hzone
    refine ⟨?_, hminutes, hle⟩
    unfold wall
    rw [Int.sub_add_cancel, DateTime.ofNanos_toNanos]
    exact Date.year_of_take hdate
  · cases h

/-- **What is read can be written again**, unless its offset is a day or more. -/
theorem format_of_parse {s : List Char} {t : Stamp} (h : parse s = some t) :
    t.format = .ok t.text ↔ t.offset.natAbs < 86400 := by
  obtain ⟨hyear, hminutes, -⟩ := of_parse h
  have htdiv : t.offset.tdiv 60 = t.offset / 60 :=
    Int.tdiv_eq_ediv_of_dvd (Int.dvd_of_emod_eq_zero hminutes)
  rw [format_eq_ok_iff, htdiv]
  constructor
  · rintro ⟨-, hzone, -⟩
    omega
  · intro hlt
    exact ⟨hyear, by omega, rfl⟩

example : parse "2024-02-29T9:30:00,25+05:30".toList = some ⟨1709179200250000000, 19800⟩ := by
  decide +kernel

example : format ⟨1709179200250000000, 19800⟩ = .ok "2024-02-29T09:30:00.25+05:30".toList := by
  decide +kernel

end Stamp

end Calendar
