import Such.Ui.SearchDialect

/-! What the date readers produce. Every day-precise bound is a local midnight, and
a midnight in the supported years prints and reads back as itself. -/
namespace Such.SearchDialect
open ByteText CivilTime

section Readers
variable (zone : Zone)

theorem localtime_midnight {t : Int} (mid : zone.IsMidnight t) :
    (zone.localtime t).hour = 0 ∧ (zone.localtime t).min = 0 ∧ (zone.localtime t).sec = 0 := by
  rw [zone.isMidnight_iff] at mid
  simp [Zone.localtime, mid]

theorem midnight_add_days {t : Int} (mid : zone.IsMidnight t) (days : Int) :
    zone.IsMidnight (t + days * 86400) := by
  rw [zone.isMidnight_iff] at mid ⊢
  omega

/-- The day `dayDelta` days from `now`, unless a midnight hits the error value. -/
theorem localDayRange_eq (now dayDelta : Int) :
    localDayRange zone now dayDelta =
      if zone.midnight now + dayDelta * 86400 = -1 then none
      else if zone.midnight now + dayDelta * 86400 + 86400 = -1 then none
      else some (zone.midnight now + dayDelta * 86400,
        zone.midnight now + dayDelta * 86400 + 86400) := by
  simp only [localDayRange, zone.mktime_localtime_day]
  split
  · rfl
  · have mid := midnight_add_days zone (zone.isMidnight_midnight now) dayDelta
    obtain ⟨hour, min, sec⟩ := localtime_midnight zone mid
    have next := zone.mktime_localtime_day (zone.midnight now + dayDelta * 86400) 1
    rw [mid] at next
    simp only [hour, min, sec]
    rw [next]
    simp

theorem endOfDay_eq {d : Int} (mid : zone.IsMidnight d) : endOfDay zone d = d + 86400 := by
  have start : zone.midnight d + 0 * 86400 = d := by rw [mid]; simp
  unfold endOfDay
  rw [localDayRange_eq, start]
  by_cases first : d = -1
  · rw [if_pos first, kDay]
  · rw [if_neg first]
    by_cases next : d + 86400 = -1
    · rw [if_pos next, kDay]
    · rw [if_neg next]

/-- The start of a local day in the years that the readers accept. -/
structure IsDay (t : Int) : Prop where
  midnight : zone.IsMidnight t
  noError : t ≠ -1
  low : 1970 ≤ (civilFromDays (zone.dayOf t)).year
  high : (civilFromDays (zone.dayOf t)).year ≤ 9999

/-- A date that survives the round trip is the start of its own day. -/
theorem localEpochForYmd_eq {y m d epoch : Int}
    (parsed : localEpochForYmd zone y m d = some epoch) :
    IsDay zone epoch ∧ civilFromDays (zone.dayOf epoch) = ⟨y, m, d⟩ := by
  unfold localEpochForYmd at parsed
  split at parsed
  · cases parsed
  · rename_i range
    simp only [not_or, Int.not_lt, gt_iff_lt] at range
    obtain ⟨low, high, monthLow, monthHigh, -, -⟩ := range
    rw [zone.mktime_midnight monthLow monthHigh] at parsed
    simp only at parsed
    split at parsed
    · cases parsed
    · rename_i good
      split at parsed
      · cases parsed
      · rename_i same
        obtain rfl := Option.some.inj parsed
        have read := zone.localtime_date (daysFromCivil y m d * 86400 - zone.utcOffset)
        have date : civilFromDays (zone.dayOf (daysFromCivil y m d * 86400 - zone.utcOffset)) =
            ⟨y, m, d⟩ := by
          cases civil : civilFromDays (zone.dayOf (daysFromCivil y m d * 86400 - zone.utcOffset))
          simp only [civil] at read
          simp only [Date.mk.injEq]
          omega
        refine ⟨⟨zone.isMidnight_day _, good, ?_, ?_⟩, date⟩
        · rw [date]
          exact low
        · rw [date]
          exact high

theorem localEpochForYmd_isDay {y m d epoch : Int}
    (parsed : localEpochForYmd zone y m d = some epoch) : IsDay zone epoch :=
  (localEpochForYmd_eq zone parsed).1

/-- The date of a day in the supported years reads back as that day's midnight. -/
theorem localEpochForYmd_civil {day : Int} (low : 1970 ≤ (civilFromDays day).year)
    (high : (civilFromDays day).year ≤ 9999) :
    localEpochForYmd zone (civilFromDays day).year (civilFromDays day).month
      (civilFromDays day).day =
        if day * 86400 - zone.utcOffset = -1 then none else some (day * 86400 - zone.utcOffset) := by
  obtain ⟨⟨monthLow, monthHigh⟩, dayLow, dayHigh⟩ := civilFromDays_range day
  have epoch := zone.mktime_midnight (y := (civilFromDays day).year)
    (d := (civilFromDays day).day) monthLow monthHigh
  rw [daysFromCivil_civilFromDays] at epoch
  obtain ⟨years, months, days⟩ := zone.localtime_date (day * 86400 - zone.utcOffset)
  rw [zone.dayOf_day] at years months days
  have range : ¬ ((civilFromDays day).year < 1970 ∨ (civilFromDays day).year > 9999 ∨
      (civilFromDays day).month < 1 ∨ (civilFromDays day).month > 12 ∨
      (civilFromDays day).day < 1 ∨ (civilFromDays day).day > 31) := by omega
  have same : ¬ ((zone.localtime (day * 86400 - zone.utcOffset)).year ≠ (civilFromDays day).year - 1900 ∨
      (zone.localtime (day * 86400 - zone.utcOffset)).mon ≠ (civilFromDays day).month - 1 ∨
      (zone.localtime (day * 86400 - zone.utcOffset)).mday ≠ (civilFromDays day).day) := by omega
  simp only [localEpochForYmd, if_neg range, epoch, if_neg same]

theorem parseIsoDayLocal_isDay {s : Bytes} {d : Int} (parsed : parseIsoDayLocal zone s = some d) :
    IsDay zone d := by
  simp only [parseIsoDayLocal] at parsed
  split_ifs at parsed
  exact localEpochForYmd_isDay zone parsed

theorem parseIsoMonthLocal_isDay {s : Bytes} {range : Int × Int}
    (parsed : parseIsoMonthLocal zone s = some range) :
    IsDay zone range.1 ∧ IsDay zone range.2 := by
  simp only [parseIsoMonthLocal] at parsed
  split at parsed
  · cases parsed
  split at parsed
  · cases parsed
  split at parsed
  · cases parsed
  split at parsed
  · rename_i first last firstEq lastEq
    obtain rfl := Option.some.inj parsed
    exact ⟨localEpochForYmd_isDay zone firstEq, localEpochForYmd_isDay zone lastEq⟩
  · cases parsed

theorem parseCompactDayLocal_isDay {s : Bytes} {order : Bool} {d : Int}
    (parsed : parseCompactDayLocal zone s order = some d) : IsDay zone d := by
  simp only [parseCompactDayLocal] at parsed
  split_ifs at parsed <;> exact localEpochForYmd_isDay zone parsed

theorem parseCompactDayAsRange_eq {s : Bytes} {range : Int × Int}
    (parsed : parseCompactDayAsRange zone s = some range) :
    (∃ order, parseCompactDayLocal zone s order = some range.1) ∧ range.2 = range.1 + 86400 := by
  simp only [parseCompactDayAsRange] at parsed
  cases found : parseAnyCompactDayLocal zone s with
  | none => simp [found] at parsed
  | some day =>
    have read : ∃ order, parseCompactDayLocal zone s order = some day := by
      simp only [parseAnyCompactDayLocal] at found
      split at found
      · rename_i ymd first
        exact ⟨false, first.trans found⟩
      · exact ⟨true, found⟩
    obtain ⟨order, first⟩ := read
    have close := endOfDay_eq zone (parseCompactDayLocal_isDay zone first).midnight
    unfold endOfDay at close
    rw [found] at parsed
    cases next : localDayRange zone day 0 with
    | none =>
      simp only [next, Option.some.injEq] at parsed
      exact parsed ▸ ⟨⟨order, first⟩, rfl⟩
    | some nextDay =>
      rw [next] at close
      simp only [next, Option.some.injEq] at parsed
      exact parsed ▸ ⟨⟨order, first⟩, close⟩

/-- Both ends of a compact range were read in one date order. -/
theorem parseCompactRangeLocal_eq {s : Bytes} {range : Int × Int}
    (parsed : parseCompactRangeLocal zone s = some range) :
    s.length = 17 ∧ ∃ order first last, parseCompactDayLocal zone (substr s 0 8) order = some first ∧
      parseCompactDayLocal zone (substr s 9 8) order = some last ∧ first ≤ last ∧
      range = (first, last + 86400) := by
  unfold parseCompactRangeLocal at parsed
  split at parsed
  · cases parsed
  rename_i shape
  refine ⟨by simp only [not_or, Decidable.not_not] at shape; exact shape.1, ?_⟩
  dsimp only at parsed
  split at parsed
  · cases parsed
  · rename_i first last ends
    have read : ∃ order, parseCompactDayLocal zone (substr s 0 8) order = some first ∧
        parseCompactDayLocal zone (substr s 9 8) order = some last := by
      split at ends
      · rename_i d e lhs rhs
        obtain ⟨rfl, rfl⟩ := Prod.mk.inj (Option.some.inj ends)
        exact ⟨false, lhs, rhs⟩
      · split at ends
        · rename_i d e lhs rhs
          obtain ⟨rfl, rfl⟩ := Prod.mk.inj (Option.some.inj ends)
          exact ⟨true, lhs, rhs⟩
        · cases ends
    obtain ⟨order, lhs, rhs⟩ := read
    split at parsed
    · cases parsed
    · rename_i ordered
      refine ⟨order, first, last, lhs, rhs, by simpa using ordered, ?_⟩
      split at parsed
      · rename_i nextDay found
        rw [localDayRange_eq, (parseCompactDayLocal_isDay zone rhs).midnight] at found
        have shift : last + 1 * 86400 = last + 86400 := by omega
        rw [shift] at found
        split_ifs at found
        rw [← Option.some.inj parsed, ← Option.some.inj found]
      · exact (Option.some.inj parsed).symm

end Readers

section Folding
variable (zone : Zone)

theorem substr_lower (v : Bytes) (pos count : Nat) :
    substr (lower v) pos count = lower (substr v pos count) := by
  simp [substr, lower, List.map_take, List.map_drop]

theorem getElem?_lower_eq_iff {v : Bytes} {i : Nat} {c : UInt8}
    (outside : c.toNat < 65 ∨ (90 < c.toNat ∧ c.toNat < 97) ∨ 122 < c.toNat) :
    (lower v)[i]? = some c ↔ v[i]? = some c := by
  simp [lower, toLower_eq_iff outside]

theorem parseCompactDayLocal_lower (v : Bytes) (order : Bool) :
    parseCompactDayLocal zone (lower v) order = parseCompactDayLocal zone v order := by
  cases digits : allDigits v with
  | false => simp [parseCompactDayLocal, digits]
  | true => rw [lower_of_allDigits digits]

theorem parseCompactDayAsRange_lower (v : Bytes) :
    parseCompactDayAsRange zone (lower v) = parseCompactDayAsRange zone v := by
  simp only [parseCompactDayAsRange, parseAnyCompactDayLocal, parseCompactDayLocal_lower]

theorem parseCompactRangeLocal_lower (v : Bytes) :
    parseCompactRangeLocal zone (lower v) = parseCompactRangeLocal zone v := by
  have dash : (lower v)[8]? = some 45 ↔ v[8]? = some 45 := getElem?_lower_eq_iff (by decide)
  have tilde : (lower v)[8]? = some 126 ↔ v[8]? = some 126 := getElem?_lower_eq_iff (by decide)
  simp only [parseCompactRangeLocal, length_lower, ne_eq, dash, tilde, substr_lower,
    parseCompactDayLocal_lower]

@[simp] theorem isValidControl_lower (v : Bytes) :
    isValidControl zone (lower v) = isValidControl zone v := by
  simp only [isValidControl, lower_lower]

@[simp] theorem looksExtension_lower (v : Bytes) : looksExtension (lower v) = looksExtension v := by
  have symbol : ∀ c b : UInt8, c.toNat < 65 ∨ (90 < c.toNat ∧ c.toNat < 97) ∨ 122 < c.toNat →
      (toLower b == c) = (b == c) := by
    intro c b outside
    rw [Bool.eq_iff_iff]
    simpa using toLower_eq_iff outside
  have fold58 : ∀ b : UInt8, toLower b = 58 ↔ b = 58 := fun b => toLower_eq_iff (by decide)
  have colon : (lower v).contains 58 = v.contains 58 := by
    rw [Bool.eq_iff_iff]
    simp [lower, fold58]
  have filled : (lower v).isEmpty = v.isEmpty := by
    cases v <;> rfl
  simp only [looksExtension, length_lower, colon, filled]
  simp only [lower, List.all_map, Function.comp_def, isAlnum_toLower]
  congr 1
  refine congrArg (List.all v) (funext fun b => ?_)
  rw [symbol 95 b (by decide), symbol 45 b (by decide), symbol 43 b (by decide)]

/-- A compact date starts with a digit. -/
theorem compact_none_of_head {c : UInt8} {v : Bytes} (head : isDigit c = false) :
    parseCompactRangeLocal zone (c :: v) = none ∧ parseCompactDayAsRange zone (c :: v) = none := by
  have day : ∀ rest order, parseCompactDayLocal zone (c :: rest) order = none := by
    intro rest order
    simp [parseCompactDayLocal, allDigits, head]
  constructor
  · have first : substr (c :: v) 0 8 = c :: v.take 7 := rfl
    simp only [parseCompactRangeLocal, first, day]
    split <;> rfl
  · simp [parseCompactDayAsRange, parseAnyCompactDayLocal, day]

end Folding

section Updates
variable (zone : Zone) (now : Int)

/-- Bounds present in `update` replace the old ones. -/
def DateRange.override (modified update : DateRange) : DateRange where
  afterUnixSeconds := update.afterUnixSeconds.or modified.afterUnixSeconds
  beforeUnixSeconds := update.beforeUnixSeconds.or modified.beforeUnixSeconds

/-- What one date token sets, whatever was set before. -/
def dateUpdate (body : Bytes) : DateRange := applyDateToken zone {} body now

theorem applyDateToken_eq (modified : DateRange) (body : Bytes) :
    applyDateToken zone modified body now = modified.override (dateUpdate zone now body) := by
  unfold dateUpdate applyDateToken DateRange.override
  dsimp only
  split_ifs <;> (repeat' split) <;> rfl

/-- Two days after the epoch no midnight around `now` is the error value. -/
theorem localDayRange_recent (recent : 2 * 86400 ≤ now) {dayDelta : Int}
    (near : -1 ≤ dayDelta) :
    localDayRange zone now dayDelta = some (zone.midnight now + dayDelta * 86400,
      zone.midnight now + dayDelta * 86400 + 86400) := by
  have late := zone.lt_midnight_add now
  rw [localDayRange_eq, if_neg (by omega), if_neg (by omega)]

end Updates
end Such.SearchDialect
