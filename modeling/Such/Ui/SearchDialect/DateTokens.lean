import Such.Ui.SearchDialect.Recompile

/-! What one valid date token sets, and the few texts whose range runs to the end of
the supported years. -/
namespace Such.SearchDialect
open ByteText CivilTime

section LastDay
variable (zone : Zone)

/-- Ten bytes with two dashes are the three runs around them. -/
theorem isoDay_runs {s : Bytes} (size : s.length = 10) (dash : s[4]? = some 45)
    (dash' : s[7]? = some 45) :
    s = substr s 0 4 ++ 45 :: (substr s 5 2 ++ 45 :: substr s 8 2) := by
  have first : s.drop 4 = 45 :: s.drop 5 := by
    rw [List.drop_eq_getElem?_toList_append, dash]
    rfl
  have second : (s.drop 5).drop 2 = 45 :: s.drop 8 := by
    rw [List.drop_drop, List.drop_eq_getElem?_toList_append, dash']
    rfl
  have third : (s.drop 8).take 2 = s.drop 8 := List.take_of_length_le (by simp [size])
  simp only [substr, List.drop_zero]
  rw [third, ← second, List.take_append_drop, ← first, List.take_append_drop]

/-- A day that reads has the printed form of itself. -/
theorem isoLocalDay_of_parse {s : Bytes} {t : Int} (parsed : parseIsoDayLocal zone s = some t) :
    isoLocalDay zone t = s := by
  simp only [parseIsoDayLocal] at parsed
  split at parsed
  · cases parsed
  rename_i shape
  split at parsed
  · cases parsed
  rename_i digits
  simp only [not_or, Decidable.not_not] at shape
  simp only [Bool.or_eq_true, Bool.not_eq_true', not_or, Bool.not_eq_false] at digits
  obtain ⟨size, dash, dash'⟩ := shape
  obtain ⟨⟨years, months⟩, days⟩ := digits
  obtain ⟨isDay, date⟩ := localEpochForYmd_eq zone parsed
  have low := isDay.low
  have year := eq_fixedDigits (allDigits_iff.mp years).2
  have month := eq_fixedDigits (allDigits_iff.mp months).2
  have day := eq_fixedDigits (allDigits_iff.mp days).2
  have widths : (substr s 0 4).length = 4 ∧ (substr s 5 2).length = 2 ∧ (substr s 8 2).length = 2 := by
    simp [substr, size]
  obtain ⟨width, width', width''⟩ := widths
  rw [width] at year
  rw [width'] at month
  rw [width''] at day
  rw [isoLocalDay_year zone (by omega) isDay.high, date]
  simp only [Int.toNat_natCast]
  rw [← year, ← month, ← day]
  exact (isoDay_runs size dash dash').symm

/-- The only ISO spelling of the last day. -/
theorem parseIsoDayLocal_last {s : Bytes} {t : Int} (parsed : parseIsoDayLocal zone s = some t) :
    civilFromDays (zone.dayOf t) = ⟨9999, 12, 31⟩ ↔ s = lit "9999-12-31" := by
  have spelled : fixedDigits 4 9999 ++ 45 :: (fixedDigits 2 12 ++ 45 :: fixedDigits 2 31) =
      lit "9999-12-31" := by decide
  constructor
  · intro last
    have isDay := parseIsoDayLocal_isDay zone parsed
    have low := isDay.low
    rw [← isoLocalDay_of_parse zone parsed, isoLocalDay_year zone (by omega) isDay.high, last]
    exact spelled
  · rintro rfl
    rw [← spelled, parseIsoDayLocal_fixed zone (by decide) (by decide) (by decide)] at parsed
    exact (localEpochForYmd_eq zone parsed).2

/-- The last supported day in either compact date order. -/
def compactLastDays : List Bytes := [lit "99991231", lit "12319999"]

/-- Each date order has one compact spelling of the last day. -/
theorem parseCompactDayLocal_last {s : Bytes} {order : Bool} {t : Int}
    (parsed : parseCompactDayLocal zone s order = some t) :
    civilFromDays (zone.dayOf t) = ⟨9999, 12, 31⟩ ↔ s ∈ compactLastDays := by
  have months := (civilFromDays_range (zone.dayOf t)).1
  simp only [parseCompactDayLocal] at parsed
  split at parsed
  · cases parsed
  rename_i shape
  simp only [Bool.or_eq_true, decide_eq_true_eq, Bool.not_eq_true', not_or, ne_eq,
    Decidable.not_not, Bool.not_eq_false] at shape
  obtain ⟨size, digits⟩ := shape
  have whole : s = substr s 0 8 := (List.take_of_length_le (by simp [size])).symm
  have run : ∀ pos n value : Nat, pos + n ≤ 8 → (digitsValue (substr s pos n) : Int) = value →
      substr s pos n = fixedDigits n value := by
    intro pos n value fits same
    have read := substr_eq_fixedDigits digits (size ▸ fits)
    rwa [Int.ofNat_inj.mp same] at read
  simp only [compactLastDays, List.mem_cons, List.not_mem_nil, or_false]
  split at parsed
  · have date := (localEpochForYmd_eq zone parsed).2
    rw [date, Date.mk.injEq]
    simp only [date] at months
    constructor
    · rintro ⟨year, month, day⟩
      rw [whole, substr_add s 0 2 6, substr_add s (0 + 2) 2 4, run 0 2 12 (by decide) month,
        run (0 + 2) 2 31 (by decide) day, run (0 + 2 + 2) 4 9999 (by decide) year]
      decide
    · rintro (rfl | rfl)
      · have month : digitsValue (substr (lit "99991231") 0 2) = 99 := by decide
        omega
      · decide
  · have date := (localEpochForYmd_eq zone parsed).2
    rw [date, Date.mk.injEq]
    simp only [date] at months
    constructor
    · rintro ⟨year, month, day⟩
      rw [whole, substr_add s 0 4 4, substr_add s (0 + 4) 2 2, run 0 4 9999 (by decide) year,
        run (0 + 4) 2 12 (by decide) month, run (0 + 4 + 2) 2 31 (by decide) day]
      decide
    · rintro (rfl | rfl)
      · decide
      · have month : digitsValue (substr (lit "12319999") 4 2) = 99 := by decide
        omega

/-- The token names the last supported day as the last day of its range. -/
def EndsCalendar (body : Bytes) : Prop :=
  lower body ∈ [lit "date:9999-12-31", lit "9999-12-31"] ++ compactLastDays ∨
    (lower body).length = 17 ∧ (lower body).drop 9 ∈ compactLastDays

instance (body : Bytes) : Decidable (EndsCalendar body) :=
  inferInstanceAs (Decidable (_ ∨ _))

theorem length_of_mem_compactLastDays {v : Bytes} (member : v ∈ compactLastDays) : v.length = 8 := by
  have all : ∀ w ∈ compactLastDays, w.length = 8 := by decide
  exact all v member

theorem endsCalendar_compact {body : Bytes} (size : (lower body).length = 8) :
    EndsCalendar body ↔ lower body ∈ compactLastDays := by
  have iso : lower body ∉ [lit "date:9999-12-31", lit "9999-12-31"] := by
    have all : ∀ w ∈ [lit "date:9999-12-31", lit "9999-12-31"], w.length ≠ 8 := by decide
    exact fun member => all _ member size
  rw [EndsCalendar, size, List.mem_append, or_iff_right iso, or_iff_left (by omega)]

theorem endsCalendar_range {body : Bytes} (size : (lower body).length = 17) :
    EndsCalendar body ↔ (lower body).drop 9 ∈ compactLastDays := by
  have single : lower body ∉ [lit "date:9999-12-31", lit "9999-12-31"] ++ compactLastDays := by
    have all : ∀ w ∈ [lit "date:9999-12-31", lit "9999-12-31"] ++ compactLastDays,
        w.length ≠ 17 := by decide
    exact fun member => all _ member size
  rw [EndsCalendar, or_iff_right single, and_iff_right size]

theorem endsCalendar_iso {body : Bytes} (size : (lower body).length = 10) :
    EndsCalendar body ↔ lower body = lit "9999-12-31" := by
  have compact : lower body ∉ compactLastDays := fun member => by
    have := length_of_mem_compactLastDays member
    omega
  have date : lower body ≠ lit "date:9999-12-31" := fun same => by
    have width : (lit "date:9999-12-31").length = 15 := by decide
    rw [same, width] at size
    cases size
  rw [EndsCalendar, size, List.mem_append, or_iff_left compact, or_iff_left (by omega)]
  simp [date]

theorem endsCalendar_date {body s : Bytes} (same : lower body = lit "date:" ++ s) (size : s.length = 10) :
    EndsCalendar body ↔ s = lit "9999-12-31" := by
  have long : (lower body).length = 15 := by
    rw [same, List.length_append, size]
    rfl
  have compact : lower body ∉ compactLastDays := fun member => by
    have := length_of_mem_compactLastDays member
    omega
  have iso : lower body ≠ lit "9999-12-31" := fun same => by
    have width : (lit "9999-12-31").length = 10 := by decide
    rw [same, width] at long
    cases long
  have spelled : lit "date:9999-12-31" = lit "date:" ++ lit "9999-12-31" := by decide
  rw [EndsCalendar, long, List.mem_append, or_iff_left compact, or_iff_left (by omega)]
  simp only [List.mem_cons, iso, List.not_mem_nil, or_false]
  rw [same, spelled, List.append_cancel_left_eq]

/-- Only texts of four lengths name the last supported day as the last of a range. -/
theorem not_endsCalendar_of_length {body : Bytes}
    (size : (lower body).length ≠ 8 ∧ (lower body).length ≠ 10 ∧ (lower body).length ≠ 15 ∧
      (lower body).length ≠ 17) : ¬ EndsCalendar body := by
  have all : ∀ w ∈ [lit "date:9999-12-31", lit "9999-12-31"] ++ compactLastDays,
      w.length = 8 ∨ w.length = 10 ∨ w.length = 15 := by decide
  rintro (single | range)
  · have := all _ single
    omega
  · exact size.2.2.2 range.1

/-- A `before:` day is the upper bound itself and stays inside the supported years. -/
theorem not_endsCalendar_before {body : Bytes} {d : Int}
    (closing : startsWith (lower body) (lit "before:") = true)
    (parsed : parseIsoDayLocal zone ((lower body).drop 7) = some d) : ¬ EndsCalendar body := by
  have dash : ((lower body).drop 9)[2]? = some 45 := by
    simp only [parseIsoDayLocal] at parsed
    split at parsed
    · cases parsed
    rename_i shape
    simp only [not_or, Decidable.not_not, List.getElem?_drop] at shape
    simpa only [List.getElem?_drop] using shape.2.1
  have single : ∀ w ∈ [lit "date:9999-12-31", lit "9999-12-31"] ++ compactLastDays,
      startsWith w (lit "before:") = false := by decide
  have compact : ∀ w ∈ compactLastDays, w[2]? ≠ some 45 := by decide
  rintro (same | range)
  · rw [single _ same] at closing
    cases closing
  · exact compact _ range.2 dash

theorem parseCompactDayLocal_length {s : Bytes} {order : Bool} {t : Int}
    (parsed : parseCompactDayLocal zone s order = some t) : s.length = 8 := by
  simp only [parseCompactDayLocal] at parsed
  split at parsed
  · cases parsed
  · rename_i shape
    simp only [Bool.or_eq_true, decide_eq_true_eq, not_or, ne_eq, Decidable.not_not] at shape
    exact shape.1

theorem parseIsoDayLocal_length {s : Bytes} {t : Int} (parsed : parseIsoDayLocal zone s = some t) :
    s.length = 10 := by
  simp only [parseIsoDayLocal] at parsed
  split at parsed
  · cases parsed
  · rename_i shape
    simp only [not_or, Decidable.not_not] at shape
    exact shape.1

theorem parseIsoMonthLocal_length {s : Bytes} {range : Int × Int}
    (parsed : parseIsoMonthLocal zone s = some range) : s.length = 7 := by
  simp only [parseIsoMonthLocal] at parsed
  split at parsed
  · cases parsed
  · rename_i shape
    simp only [not_or, Decidable.not_not] at shape
    exact shape.1

end LastDay

section Updates
variable (zone : Zone) (now : Int)

def spanBody (body : Bytes) : Bool :=
  lower body = lit "week" || lower body = lit "month" || lower body = lit "year"

def openingBody (body : Bytes) : Bool := startsWith (lower body) (lit "after:")

def closingBody (body : Bytes) : Bool := startsWith (lower body) (lit "before:")

/-- How far a relative token reaches back from now and on from now. -/
def relativeSpan (body : Bytes) : Option (Int × Int) :=
  if lower body = lit "today" then some (0, kDay)
  else if lower body = lit "yesterday" then some (kDay, 0)
  else if lower body = lit "week" then some (7 * kDay, 1)
  else if lower body = lit "month" then some (30 * kDay, 1)
  else if lower body = lit "year" then some (365 * kDay, 1)
  else none

/-- The token names days of its own, from the first to the last. -/
structure NamesDays (body : Bytes) : Prop where
  span : spanBody body = false
  opening : openingBody body = false
  closing : closingBody body = false

/-- What a valid date token sets, by the reader that accepts it. -/
inductive TokenUpdate (body : Bytes) : DateRange → Prop where
  | today : NamesDays body → -1 ≤ dayDelta →
      relativeSpan body = some (-(dayDelta * 86400), dayDelta * 86400 + 86400) →
      TokenUpdate body ⟨some (zone.midnight now + dayDelta * 86400),
        some (zone.midnight now + dayDelta * 86400 + 86400)⟩
  | span : spanBody body = true → relativeSpan body = some (back, 1) → 0 ≤ back →
      back ≤ 365 * kDay → TokenUpdate body ⟨some (now - back), some (now + 1)⟩
  | opening : openingBody body = true → relativeSpan body = none →
      parseIsoDayLocal zone ((lower body).drop 6) = some first →
      TokenUpdate body ⟨some first, none⟩
  | closing : closingBody body = true → relativeSpan body = none →
      parseIsoDayLocal zone ((lower body).drop 7) = some last →
      TokenUpdate body ⟨none, some last⟩
  | days : NamesDays body → relativeSpan body = none → IsDay zone first → IsDay zone last →
      (civilFromDays (zone.dayOf last) = ⟨9999, 12, 31⟩ ↔ EndsCalendar body) →
      TokenUpdate body ⟨some first, some (last + 86400)⟩
  | month : NamesDays body → relativeSpan body = none → IsDay zone first → IsDay zone last →
      ¬ EndsCalendar body → TokenUpdate body ⟨some first, some last⟩

theorem relativeSpan_eq_none {body : Bytes} (absolute : relativeSpan body = none) :
    lower body ≠ lit "today" ∧ lower body ≠ lit "yesterday" ∧ lower body ≠ lit "week" ∧
      lower body ≠ lit "month" ∧ lower body ≠ lit "year" := by
  simp only [relativeSpan] at absolute
  split_ifs at absolute with today yesterday week month year
  exact ⟨today, yesterday, week, month, year⟩

theorem dateUpdate_relative (recent : 2 * 86400 ≤ now) {body : Bytes} {span : Int × Int}
    (relative : relativeSpan body = some span) :
    TokenUpdate zone now body (dateUpdate zone now body) := by
  have near := @localDayRange_recent zone now recent
  unfold dateUpdate applyDateToken
  dsimp only
  by_cases today : lower body = lit "today"
  · have plain : NamesDays body := by
      constructor <;> simp only [spanBody, openingBody, closingBody] <;> rw [today] <;> decide
    rw [if_pos (.inl today), if_pos today, @near 0 (by decide)]
    exact .today plain (by decide) (if_pos today)
  by_cases yesterday : lower body = lit "yesterday"
  · have plain : NamesDays body := by
      constructor <;> simp only [spanBody, openingBody, closingBody] <;> rw [yesterday] <;> decide
    rw [if_pos (.inr yesterday), if_neg today, @near (-1) (by decide)]
    exact .today plain (by decide) ((if_neg today).trans (if_pos yesterday))
  rw [if_neg (not_or.mpr ⟨today, yesterday⟩)]
  by_cases week : lower body = lit "week"
  · have back : relativeSpan body = some (7 * kDay, 1) := by
      rw [relativeSpan, week]
      decide
    rw [if_pos week]
    exact .span (by simp [spanBody, week]) back (by decide) (by decide)
  rw [if_neg week]
  by_cases month : lower body = lit "month"
  · have back : relativeSpan body = some (30 * kDay, 1) := by
      rw [relativeSpan, month]
      decide
    rw [if_pos month]
    exact .span (by simp [spanBody, month]) back (by decide) (by decide)
  rw [if_neg month]
  by_cases year : lower body = lit "year"
  · have back : relativeSpan body = some (365 * kDay, 1) := by
      rw [relativeSpan, year]
      decide
    rw [if_pos year]
    exact .span (by simp [spanBody, year]) back (by decide) (by decide)
  simp [relativeSpan, today, yesterday, week, month, year] at relative

/-- A token without a name in front is read as a range, a day or a month. -/
theorem dateUpdate_bare {body : Bytes} (absolute : relativeSpan body = none)
    (plain : NamesDays body) (unnamed : startsWith (lower body) (lit "date:") = false)
    (valid : isValidControl zone body = true) (notPin : lower body ≠ lit "pin") :
    TokenUpdate zone now body (dateUpdate zone now body) := by
  obtain ⟨today, yesterday, week, month, year⟩ := relativeSpan_eq_none absolute
  have opening := plain.opening
  have closing := plain.closing
  simp only [openingBody, closingBody] at opening closing
  simp only [isValidControl, notPin, today, yesterday, week, month, year, or_self, if_false, unnamed,
    opening, closing, Bool.false_eq_true] at valid
  simp only [dateUpdate, applyDateToken, today, yesterday, week, month, year, or_self, if_false,
    unnamed, opening, closing, Bool.false_eq_true]
  cases compact : parseCompactRangeLocal zone (lower body) with
  | some range =>
    obtain ⟨size, order, first, last, lhs, rhs, -, rfl⟩ := parseCompactRangeLocal_eq zone compact
    have tail : substr (lower body) 9 8 = (lower body).drop 9 :=
      List.take_of_length_le (by simp only [List.length_drop]; omega)
    rw [tail] at rhs
    exact .days plain absolute (parseCompactDayLocal_isDay zone lhs)
      (parseCompactDayLocal_isDay zone rhs)
      ((parseCompactDayLocal_last zone rhs).trans (endsCalendar_range size).symm)
  | none =>
    cases compactDay : parseCompactDayAsRange zone (lower body) with
    | some range =>
      obtain ⟨⟨order, day⟩, next⟩ := parseCompactDayAsRange_eq zone compactDay
      have isDay := parseCompactDayLocal_isDay zone day
      simp only [next]
      exact .days plain absolute isDay isDay ((parseCompactDayLocal_last zone day).trans
        (endsCalendar_compact (parseCompactDayLocal_length zone day)).symm)
    | none =>
      cases iso : parseIsoDayLocal zone (lower body) with
      | some d =>
        have isDay := parseIsoDayLocal_isDay zone iso
        simp only [endOfDay_eq zone isDay.midnight]
        exact .days plain absolute isDay isDay ((parseIsoDayLocal_last zone iso).trans
          (endsCalendar_iso (parseIsoDayLocal_length zone iso)).symm)
      | none =>
        cases isoMonth : parseIsoMonthLocal zone (lower body) with
        | some range =>
          obtain ⟨first, last⟩ := parseIsoMonthLocal_isDay zone isoMonth
          have size := parseIsoMonthLocal_length zone isoMonth
          exact .month plain absolute first last (not_endsCalendar_of_length (by omega))
        | none => simp [compact, compactDay, iso, isoMonth] at valid

/-- A day behind `date:`, `after:` or `before:`. -/
theorem dateUpdate_named {body : Bytes} (absolute : relativeSpan body = none)
    (named : startsWith (lower body) (lit "date:") = true ∨ openingBody body = true ∨
      closingBody body = true)
    (valid : isValidControl zone body = true) (notPin : lower body ≠ lit "pin") :
    TokenUpdate zone now body (dateUpdate zone now body) := by
  obtain ⟨today, yesterday, week, month, year⟩ := relativeSpan_eq_none absolute
  simp only [isValidControl, notPin, today, yesterday, week, month, year, or_self, if_false] at valid
  simp only [dateUpdate, applyDateToken, today, yesterday, week, month, year, or_self, if_false]
  by_cases date : startsWith (lower body) (lit "date:") = true
  · rw [if_pos date] at valid ⊢
    obtain ⟨d, parsed⟩ := Option.isSome_iff_exists.mp valid
    have isDay := parseIsoDayLocal_isDay zone parsed
    have text := eq_append_of_startsWith date
    have plain : NamesDays body := by
      constructor
      · simp [spanBody, week, month, year]
      · simp only [openingBody]
        rw [text]
        rfl
      · simp only [closingBody]
        rw [text]
        rfl
    rw [parsed]
    simp only [endOfDay_eq zone isDay.midnight]
    exact .days plain absolute isDay isDay ((parseIsoDayLocal_last zone parsed).trans
      (endsCalendar_date text (parseIsoDayLocal_length zone parsed)).symm)
  rw [if_neg date] at valid ⊢
  by_cases opening : startsWith (lower body) (lit "after:") = true
  · rw [if_pos opening] at valid ⊢
    obtain ⟨d, parsed⟩ := Option.isSome_iff_exists.mp valid
    rw [parsed]
    exact .opening opening absolute parsed
  have closing := (named.resolve_left date).resolve_left opening
  simp only [closingBody] at closing
  rw [if_neg opening, if_pos closing] at valid ⊢
  obtain ⟨d, parsed⟩ := Option.isSome_iff_exists.mp valid
  rw [parsed]
  exact .closing closing absolute parsed

/-- A valid date token is relative, named or bare. -/
theorem dateUpdate_tokenUpdate (recent : 2 * 86400 ≤ now) {body : Bytes}
    (valid : isValidControl zone body = true) (notPin : lower body ≠ lit "pin") :
    TokenUpdate zone now body (dateUpdate zone now body) := by
  cases absolute : relativeSpan body with
  | some span => exact dateUpdate_relative zone now recent absolute
  | none =>
    obtain ⟨-, -, week, month, year⟩ := relativeSpan_eq_none absolute
    by_cases named : startsWith (lower body) (lit "date:") = true ∨ openingBody body = true ∨
        closingBody body = true
    · exact dateUpdate_named zone now absolute named valid notPin
    · simp only [not_or, Bool.not_eq_true] at named
      obtain ⟨unnamed, opening, closing⟩ := named
      have span : spanBody body = false := by simp [spanBody, week, month, year]
      exact dateUpdate_bare zone now absolute ⟨span, opening, closing⟩ unnamed valid notPin

/-- The bounds a valid date token can set. -/
inductive DateStep (body : Bytes) : DateRange → Prop where
  | span : spanBody body = true → first < now + 1 →
      DateStep body ⟨some first, some (now + 1)⟩
  | opening : openingBody body = true →
      parseIsoDayLocal zone ((lower body).drop 6) = some first → DateStep body ⟨some first, none⟩
  | closing : closingBody body = true →
      parseIsoDayLocal zone ((lower body).drop 7) = some last → DateStep body ⟨none, some last⟩
  | days : spanBody body = false → openingBody body = false → closingBody body = false →
      zone.IsMidnight first → zone.IsMidnight last → DateStep body ⟨some first, some last⟩

theorem TokenUpdate.step {body : Bytes} {set : DateRange} (update : TokenUpdate zone now body set) :
    DateStep zone now body set := by
  have next : ∀ day, zone.IsMidnight day → zone.IsMidnight (day + 86400) := by
    intro day midnight
    simpa using midnight_add_days zone midnight 1
  cases update with
  | today plain =>
    have first := midnight_add_days zone (zone.isMidnight_midnight now)
    exact .days plain.span plain.opening plain.closing (first _) (next _ (first _))
  | span span _ positive => exact .span span (by omega)
  | opening opening _ parsed => exact .opening opening parsed
  | closing closing _ parsed => exact .closing closing parsed
  | days plain _ first last =>
    exact .days plain.span plain.opening plain.closing first.midnight (next _ last.midnight)
  | month plain _ first last =>
    exact .days plain.span plain.opening plain.closing first.midnight last.midnight

end Updates
end Such.SearchDialect
