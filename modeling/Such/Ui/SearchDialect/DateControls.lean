import Mathlib.Tactic.IntervalCases
import Such.Ui.SearchDialect.DateTokens

/-! The recogniser of date controls and their interpreter agree: what the one accepts the other
turns into a bound, and a range it sets is never empty. -/
namespace Such.SearchDialect
open ByteText CivilTime

section Unchanged
variable (zone : Zone) (now : Int)

theorem applyDateToken_of_invalid {body : Bytes} (invalid : isValidControl zone body = false)
    (modified : DateRange) : applyDateToken zone modified body now = modified := by
  simp only [isValidControl] at invalid
  split at invalid
  · cases invalid
  rename_i words
  simp only [not_or] at words
  obtain ⟨-, today, yesterday, week, month, year⟩ := words
  simp only [applyDateToken, today, yesterday, week, month, year, or_self, if_false]
  by_cases date : startsWith (lower body) (lit "date:") = true
  · rw [if_pos date, Option.isSome_eq_false_iff, Option.isNone_iff_eq_none] at invalid
    rw [if_pos date, invalid]
  by_cases after : startsWith (lower body) (lit "after:") = true
  · rw [if_neg date, if_pos after, Option.isSome_eq_false_iff, Option.isNone_iff_eq_none] at invalid
    rw [if_neg date, if_pos after, invalid]
  by_cases before : startsWith (lower body) (lit "before:") = true
  · rw [if_neg date, if_neg after, if_pos before, Option.isSome_eq_false_iff,
      Option.isNone_iff_eq_none] at invalid
    rw [if_neg date, if_neg after, if_pos before, invalid]
  rw [if_neg date, if_neg after, if_neg before] at invalid ⊢
  split at invalid
  · cases invalid
  rename_i compact
  simp only [Bool.or_eq_true, not_or, Bool.not_eq_true, Bool.or_eq_false_iff,
    Option.isSome_eq_false_iff, Option.isNone_iff_eq_none] at compact invalid
  rw [compact.1, compact.2, invalid.1, invalid.2]

/-- The pin is a control of its own. -/
theorem applyDateToken_pin {body : Bytes} (pin : lower body = lit "pin") (modified : DateRange) :
    applyDateToken zone modified body now = modified := by
  simp only [applyDateToken, pin]
  rfl

end Unchanged

section Order
variable (zone : Zone)

theorem daysFromCivil_month_lt {y m : Int} (low : 1 ≤ m) (high : m < 12) :
    daysFromCivil y m 1 < daysFromCivil y (m + 1) 1 := by
  have months : ∀ leap : Bool, daysBeforeMonth leap m < daysBeforeMonth leap (m + 1) := by
    intro leap
    interval_cases m <;> cases leap <;> decide
  have step := months (isLeap y)
  simp only [daysFromCivil]
  omega

theorem daysFromCivil_year_lt (y : Int) : daysFromCivil y 12 1 < daysFromCivil (y + 1) 1 1 := by
  have december : ∀ leap : Bool, daysBeforeMonth leap 12 < 365 := by decide
  have january : ∀ leap : Bool, daysBeforeMonth leap 1 = 0 := by decide
  have step := december (isLeap y)
  have first := january (isLeap (y + 1))
  have year := daysBeforeYear_succ y
  simp only [daysFromCivil]
  split_ifs at year <;> omega

theorem localEpochForYmd_day {y m d epoch : Int}
    (parsed : localEpochForYmd zone y m d = some epoch) : zone.dayOf epoch = daysFromCivil y m d := by
  have date := (localEpochForYmd_eq zone parsed).2
  have day := daysFromCivil_civilFromDays (zone.dayOf epoch)
  rw [date] at day
  exact day.symm

/-- A later local day begins later. -/
theorem lt_of_dayOf_lt {t u : Int} (earlier : zone.dayOf t < zone.dayOf u) : t < u := by
  simp only [Zone.dayOf] at earlier
  omega

/-- A month ends after it begins. -/
theorem parseIsoMonthLocal_lt {s : Bytes} {range : Int × Int}
    (parsed : parseIsoMonthLocal zone s = some range) : range.1 < range.2 := by
  simp only [parseIsoMonthLocal] at parsed
  split at parsed
  · cases parsed
  split at parsed
  · cases parsed
  split at parsed
  · cases parsed
  rename_i months
  split at parsed
  · rename_i first last firstEq lastEq
    obtain rfl := Option.some.inj parsed
    apply lt_of_dayOf_lt zone
    rw [localEpochForYmd_day zone firstEq, localEpochForYmd_day zone lastEq]
    by_cases december : digitsValue (substr s 5 2) = 12
    · have year := daysFromCivil_year_lt (digitsValue (substr s 0 4))
      simpa [december] using year
    · have month := @daysFromCivil_month_lt (digitsValue (substr s 0 4)) (digitsValue (substr s 5 2))
        (by omega) (by omega)
      simpa [december] using month
  · cases parsed

theorem localDayRange_lt {now dayDelta : Int} {range : Int × Int}
    (found : localDayRange zone now dayDelta = some range) : range.1 < range.2 := by
  rw [localDayRange_eq] at found
  split_ifs at found
  rw [← Option.some.inj found]
  omega

/-- Whatever the filter was, two bounds that one token sets have room between them. -/
theorem dateUpdate_lt (now : Int) {body : Bytes} {after before : Int}
    (both : dateUpdate zone now body = ⟨some after, some before⟩) : after < before := by
  have bounds : ∀ {t u : Int}, (⟨some t, some u⟩ : DateRange) = ⟨some after, some before⟩ →
      t = after ∧ u = before := by
    intro t u same
    simpa using same
  have wholeDay : ∀ {s : Bytes} {t : Int}, parseIsoDayLocal zone s = some t → t < endOfDay zone t := by
    intro s t parsed
    rw [endOfDay_eq zone (parseIsoDayLocal_isDay zone parsed).midnight]
    omega
  simp only [dateUpdate, applyDateToken] at both
  split at both
  · split at both
    · rename_i range found
      obtain ⟨rfl, rfl⟩ := bounds both
      exact localDayRange_lt zone found
    · cases both
  split at both
  · obtain ⟨rfl, rfl⟩ := bounds both
    simp only [kDay]
    omega
  split at both
  · obtain ⟨rfl, rfl⟩ := bounds both
    simp only [kDay]
    omega
  split at both
  · obtain ⟨rfl, rfl⟩ := bounds both
    simp only [kDay]
    omega
  split at both
  · split at both
    · rename_i parsed
      obtain ⟨rfl, rfl⟩ := bounds both
      exact wholeDay parsed
    · cases both
  -- A single `after:` or `before:` leaves the other bound unset.
  split at both
  · split at both <;> cases both
  split at both
  · split at both <;> cases both
  split at both
  · rename_i range compact
    obtain ⟨-, -, first, last, -, -, ordered, rfl⟩ := parseCompactRangeLocal_eq zone compact
    obtain ⟨rfl, rfl⟩ := bounds both
    omega
  split at both
  · rename_i range compact
    have next := (parseCompactDayAsRange_eq zone compact).2
    obtain ⟨rfl, rfl⟩ := bounds both
    omega
  split at both
  · rename_i parsed
    obtain ⟨rfl, rfl⟩ := bounds both
    exact wholeDay parsed
  split at both
  · rename_i month
    obtain ⟨rfl, rfl⟩ := bounds both
    exact parseIsoMonthLocal_lt zone month
  · cases both

end Order

section Controls
variable (zone : Zone)

/-- A valid token sets a bound. -/
theorem TokenUpdate.ne_empty {now : Int} {body : Bytes} {set : DateRange}
    (update : TokenUpdate zone now body set) : set ≠ {} := by
  rintro rfl
  cases update

/-- A date control sets a bound exactly where it is recognised and is not the pin; any other text
leaves every filter as it was; and two bounds set at once have room between them. -/
theorem isValidControl_iff_dateUpdate (now : Int)
    (since1971 : 1971 ≤ (civilFromDays (zone.dayOf now)).year)
    (until9998 : (civilFromDays (zone.dayOf now)).year ≤ 9998) (body : Bytes) :
    (isValidControl zone body = true ∧ lower body ≠ lit "pin" ↔
      applyDateToken zone {} body now ≠ {}) ∧
    (¬ (isValidControl zone body = true ∧ lower body ≠ lit "pin") →
      ∀ modified, applyDateToken zone modified body now = modified) ∧
    (∀ after before, applyDateToken zone {} body now = ⟨some after, some before⟩ →
      after < before) := by
  have recent : 2 * 86400 ≤ now := by
    have first : daysFromCivil 1971 1 1 = 365 := by decide
    have years := (year_lt_iff (zone.dayOf now) 1971).not.1 (by omega)
    have offset := zone.upper
    rw [first, Zone.dayOf] at years
    omega
  have unchanged : ¬ (isValidControl zone body = true ∧ lower body ≠ lit "pin") →
      ∀ modified, applyDateToken zone modified body now = modified := by
    intro other modified
    by_cases pin : lower body = lit "pin"
    · exact applyDateToken_pin zone now pin modified
    · have invalid : isValidControl zone body = false := by simpa [pin] using other
      exact applyDateToken_of_invalid zone now invalid modified
  refine ⟨?_, unchanged, fun after before => dateUpdate_lt zone now⟩
  constructor
  · rintro ⟨valid, notPin⟩
    exact (dateUpdate_tokenUpdate zone now recent valid notPin).ne_empty
  · intro sets
    by_contra other
    exact sets (unchanged other {})

theorem isValidControl_iff_dateUpdate_july :
    isValidControl .utc (lit "2026-07") = true ∧ lower (lit "2026-07") ≠ lit "pin" ↔
      applyDateToken .utc {} (lit "2026-07") 1800000000 ≠ {} :=
  (isValidControl_iff_dateUpdate .utc 1800000000 (by decide) (by decide) (lit "2026-07")).1

end Controls
end Such.SearchDialect
