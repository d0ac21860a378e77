/-
Expiry and time zones: when the two stores report a saved link as expired.

`MemoryStore` compares the clock with the instant that the request's `expires_at`
denotes. `PgStore` writes it into a `TIMESTAMP` column, which keeps the wall clock and
drops the offset, and compares the clock with what it reads back. For an offset east of
UTC the link lives longer there, for one west of it shorter, by the offset; between the
two the stores disagree, and nowhere else (`expired_alike_iff`).
-/
import EngineeringLab.Shortener.Store

set_option autoImplicit false

open Concurrency

namespace EngineeringLab.Shortener

/-- A lookup's answer for an expired link. -/
def expired : Option LookupResult × Option StoreError := (none, some .errExpired)

/-- The clock is after the instant, but not after the wall clock read as UTC, or the other
way round. -/
def Time.skewed (t now : Time) : Prop :=
  t.instant < now.instant ∧ now.instant ≤ t.instant + t.offset * 1000000000 ∨
    t.instant + t.offset * 1000000000 < now.instant ∧ now.instant ≤ t.instant

/-- Both stores report the link of `code` as expired at `now`, or neither does, and that is
as the instant of its expiry says. -/
structure ExpiredAlike (s : MemoryStore) (e : Env) (code : String) (expiresAt now : Time) :
    Prop where
  alike : PgStore.lookupAt { e with now := now.instant } code = expired ↔
    s.lookup now code = expired
  instant : s.lookup now code = expired ↔ expiresAt.instant < now.instant

section

variable {code url : String} {t now : Time} {s : MemoryStore} {e e' : Env}

theorem PgStore.lookupAt_expires :
    PgStore.lookupAt { e.insert code url ⟨t, true⟩ with now := now.instant } code = expired ↔
      (timestampColumn t).instant < now.instant := by
  by_cases hafter : (timestampColumn t).instant < now.instant
  · simp [PgStore.lookupAt, PgStore.lookup, pgSelect, timeNow, answer, Env.insert, readRow,
      Time.after, expired, hafter]
  · simp [PgStore.lookupAt, PgStore.lookup, pgSelect, timeNow, answer, Env.insert, readRow,
      Time.after, expired, hafter]

theorem MemoryStore.lookup_expires :
    (s.save code url (some t)).1.lookup now code = expired ↔ t.instant < now.instant := by
  by_cases hafter : t.instant < now.instant
  · simp [MemoryStore.save, MemoryStore.lookup, Time.after, expired, hafter]
  · simp [MemoryStore.save, MemoryStore.lookup, Time.after, expired, hafter]

/-- A whole number of microseconds goes through the column but for the offset. -/
theorem timestampColumn_micro (h : t.instant % 1000 = 0) :
    (timestampColumn t).instant = t.instant + t.offset * 1000000000 := by
  simp only [timestampColumn]
  omega

theorem expiredAlike_iff (hmicro : t.instant % 1000 = 0)
    (hsave : (PgStore.save code url (some t)).Ends Exec e (.ok none) e') :
    ExpiredAlike (s.save code url (some t)).1 e' code t now ↔ ¬ t.skewed now := by
  have hrow : e' = e.insert code url ⟨t, true⟩ := by
    rcases PgStore.save_ends hsave with ⟨-, -, hrow⟩ | ⟨hfail, -⟩
    · exact hrow
    · exact absurd rfl hfail
  have hpg := @PgStore.lookupAt_expires code url t now e
  rw [← hrow, timestampColumn_micro hmicro] at hpg
  have hmemory := @MemoryStore.lookup_expires code url t now s
  constructor
  · rintro ⟨halike, -⟩ hskewed
    rw [hpg, hmemory] at halike
    rcases hskewed with ⟨hafter, hbefore⟩ | ⟨hafter, hbefore⟩
    · have hlate := halike.mpr hafter
      omega
    · have hearly := halike.mp hafter
      omega
  · intro hnot
    refine ⟨?_, hmemory⟩
    rw [hpg, hmemory]
    unfold Time.skewed at hnot
    omega

/-- **Both stores decide alike exactly where the offset does not matter**: at every `now`
that is not between the expiry and its wall clock read as UTC, and so at every `now` if
and only if the expiry is given in UTC. -/
theorem expired_alike_iff (hmicro : t.instant % 1000 = 0)
    (hsave : (PgStore.save code url (some t)).Ends Exec e (.ok none) e') :
    (∀ now, ExpiredAlike (s.save code url (some t)).1 e' code t now ↔ ¬ t.skewed now) ∧
      ((∀ now, ExpiredAlike (s.save code url (some t)).1 e' code t now) ↔ t.offset = 0) := by
  refine ⟨fun now => expiredAlike_iff hmicro hsave, ?_⟩
  simp only [expiredAlike_iff hmicro hsave]
  constructor
  · intro hnever
    by_contra hoffset
    rcases lt_or_gt_of_ne hoffset with hwest | heast
    · refine hnever ⟨t.instant, 0⟩ (.inr ⟨?_, le_refl _⟩)
      dsimp only
      omega
    · refine hnever ⟨t.instant + t.offset * 1000000000, 0⟩ (.inl ⟨?_, le_refl _⟩)
      dsimp only
      omega
  · rintro hoffset now hskewed
    unfold Time.skewed at hskewed
    rw [hoffset] at hskewed
    omega

end

/-! ### Noon in Paris -/

/-- 2026-06-01T12:00:00+02:00. -/
def noonInParis : Time := ⟨1780308000 * 1000000000, 7200⟩

theorem save_noonInParis :
    (PgStore.save "aZ3kQ9x" "https://example.com" (some noonInParis)).Ends Exec Env.empty (.ok none)
      (Env.empty.insert "aZ3kQ9x" "https://example.com" ⟨noonInParis, true⟩) :=
  .call (.pgInsert rfl) (.ret _ _)

/-- Noon in Paris, two hours ahead of UTC, saved in both stores. -/
theorem expired_alike_iff_example :
    (∀ now, ExpiredAlike (MemoryStore.save (fun _ => none) "aZ3kQ9x" "https://example.com"
        (some noonInParis)).1 (Env.empty.insert "aZ3kQ9x" "https://example.com" ⟨noonInParis, true⟩)
        "aZ3kQ9x" noonInParis now ↔ ¬ noonInParis.skewed now) ∧
      ((∀ now, ExpiredAlike (MemoryStore.save (fun _ => none) "aZ3kQ9x" "https://example.com"
        (some noonInParis)).1 (Env.empty.insert "aZ3kQ9x" "https://example.com" ⟨noonInParis, true⟩)
        "aZ3kQ9x" noonInParis now) ↔ noonInParis.offset = 0) :=
  expired_alike_iff (by decide) save_noonInParis

/-- **A link that has expired in memory is still found in Postgres**, one second after noon
in Paris: the column has kept twelve o'clock and dropped the two hours that Paris is ahead. -/
theorem lives_longer_in_postgres :
    (MemoryStore.save (fun _ => none) "aZ3kQ9x" "https://example.com" (some noonInParis)).1.lookup
        ⟨noonInParis.instant + 1000000000, 0⟩ "aZ3kQ9x" = expired ∧
      PgStore.lookupAt { Env.empty.insert "aZ3kQ9x" "https://example.com" ⟨noonInParis, true⟩ with
        now := noonInParis.instant + 1000000000 } "aZ3kQ9x" ≠ expired := by
  refine ⟨MemoryStore.lookup_expires.mpr (by decide), fun h => ?_⟩
  have hlate := (@PgStore.lookupAt_expires _ _ _ ⟨noonInParis.instant + 1000000000, 0⟩ _).mp h
  revert hlate
  decide

end EngineeringLab.Shortener
