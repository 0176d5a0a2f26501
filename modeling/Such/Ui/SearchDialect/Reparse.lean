import Such.Ui.SearchDialect.Window

/-! Which queries keep their meaning on the way to the runtime. A printed bound reads
back as a date up to the last day of year 9999; past it the token turns into search text. -/
namespace Such.SearchDialect
open ByteText CivilTime

section Calendar
variable (zone : Zone)

/-- The end of the years that the date readers accept. -/
def endOfYears : Int := daysFromCivil 10000 1 1 * 86400 - zone.utcOffset

theorem year_le_iff (t : Int) :
    (civilFromDays (zone.dayOf t)).year ≤ 9999 ↔ t < endOfYears zone := by
  have years := year_lt_iff (zone.dayOf t) 10000
  simp only [endOfYears, Zone.dayOf] at years ⊢
  omega

/-- The end of the years is a midnight, so rounding does not move a bound across it. -/
theorem endOfYears_le_midnight (t days : Int) :
    endOfYears zone ≤ zone.midnight t + days * 86400 ↔ endOfYears zone ≤ t + days * 86400 := by
  simp only [endOfYears, Zone.midnight, Zone.dayOf]
  omega

/-- A bound from 1970 on whose midnight is not the error value. -/
structure Sound (t : Int) : Prop where
  year : 1970 ≤ (civilFromDays (zone.dayOf t)).year
  noError : zone.midnight t ≠ -1

theorem sound_of_le {t : Int} (late : 86400 ≤ t) : Sound zone t := by
  have epoch : daysFromCivil 1970 1 1 = 0 := by decide
  have years := year_lt_iff (zone.dayOf t) 1970
  have upper := zone.upper
  have lower := zone.lower
  rw [epoch] at years
  constructor
  · simp only [Zone.dayOf] at years ⊢
    omega
  · simp only [Zone.midnight, Zone.dayOf]
    omega

/-- A day from year 10000 on does not read back. -/
theorem dayRound_late {t : Int} (late : endOfYears zone ≤ t) : dayRound zone t = none := by
  have year : 9999 < (civilFromDays (zone.dayOf t)).year := by
    have := year_le_iff zone t
    omega
  obtain ⟨n, same⟩ := Int.eq_ofNat_of_zero_le
    (show 0 ≤ (civilFromDays (zone.dayOf t)).year by omega)
  have digits : 4 < (decimal n).length := by
    have above : 10 ^ 4 ≤ n := by omega
    exact (Nat.pow_lt_pow_iff_right (by decide)).mp
      (Nat.lt_of_le_of_lt above (lt_pow_length_decimal n))
  have long : (isoLocalDay zone t).length ≠ 10 := by
    have printed : decimalInt (n : Int) = decimal n := rfl
    simp only [isoLocalDay_eq, same, printed]
    split
    · simp only [List.length_append, List.length_cons, length_fixedDigits]
      omega
    · simp
  rw [dayRound, parseIsoDayLocal, if_pos (.inl long)]

theorem dayRound_isSome_iff {t : Int} (sound : Sound zone t) :
    (dayRound zone t).isSome = true ↔ t < endOfYears zone := by
  constructor
  · intro reads
    by_contra late
    rw [dayRound_late zone (by omega)] at reads
    cases reads
  · intro early
    rw [dayRound_eq zone sound.year ((year_le_iff zone t).mpr early), if_neg sound.noError]
    rfl

/-- A bound that is past the supported years exactly under `late`. -/
structure Edge (t : Int) (late : Prop) : Prop where
  sound : Sound zone t
  past : endOfYears zone ≤ t ↔ late

variable {zone}

theorem IsDay.sound {t : Int} (isDay : IsDay zone t) : Sound zone t := by
  refine ⟨isDay.low, ?_⟩
  rw [isDay.midnight]
  exact isDay.noError

theorem IsDay.lt_endOfYears {t : Int} (isDay : IsDay zone t) : t < endOfYears zone :=
  (year_le_iff zone t).mp isDay.high

/-- The midnight after a supported day. -/
theorem IsDay.sound_next {t : Int} (isDay : IsDay zone t) : Sound zone (t + 86400) := by
  have epoch : daysFromCivil 1970 1 1 = 0 := by decide
  have years := year_lt_iff (zone.dayOf t) 1970
  have next := year_lt_iff (zone.dayOf (t + 86400)) 1970
  have midnight := midnight_add_days zone isDay.midnight 1
  have low := isDay.low
  have upper := zone.upper
  rw [Int.one_mul] at midnight
  rw [epoch] at years next
  constructor
  · simp only [Zone.dayOf] at years next low ⊢
    omega
  · rw [midnight]
    simp only [Zone.dayOf] at years low
    omega

/-- Only the last supported day ends with the supported years. -/
theorem IsDay.next_iff {t : Int} (isDay : IsDay zone t) :
    endOfYears zone ≤ t + 86400 ↔ civilFromDays (zone.dayOf t) = ⟨9999, 12, 31⟩ := by
  have midnight := isDay.midnight
  have before := isDay.lt_endOfYears
  have last : daysFromCivil 9999 12 31 + 1 = daysFromCivil 10000 1 1 := by decide
  have edge : endOfYears zone ≤ t + 86400 ↔ zone.dayOf t = daysFromCivil 9999 12 31 := by
    simp only [endOfYears, Zone.IsMidnight, Zone.midnight, Zone.dayOf] at *
    omega
  rw [edge]
  constructor
  · intro same
    rw [same]
    decide
  · intro civil
    have day := daysFromCivil_civilFromDays (zone.dayOf t)
    rw [civil] at day
    exact day.symm

theorem IsDay.edge {t : Int} {late : Prop} (isDay : IsDay zone t) (never : ¬ late) :
    Edge zone t late := by
  have early := isDay.lt_endOfYears
  exact ⟨isDay.sound, ⟨fun past => by omega, fun now => absurd now never⟩⟩

theorem IsDay.edge_next {t : Int} {late : Prop} (isDay : IsDay zone t)
    (last : civilFromDays (zone.dayOf t) = ⟨9999, 12, 31⟩ ↔ late) : Edge zone (t + 86400) late :=
  ⟨isDay.sound_next, isDay.next_iff.trans last⟩

end Calendar

section Late
variable (zone : Zone) (now : Int)

/-- A relative token whose lower bound is past the supported years. -/
def OpensLate (body : Bytes) : Prop :=
  ∃ span ∈ relativeSpan body, endOfYears zone ≤ now - span.1

/-- A token whose range runs to the end of the supported years. -/
def ClosesLate (body : Bytes) : Prop :=
  (∃ span ∈ relativeSpan body, endOfYears zone ≤ now + span.2) ∨ EndsCalendar body

/-- One of the tokens that decide the bounds leaves the supported years. -/
def TooLate (bodies : List Bytes) : Prop :=
  (∃ body ∈ lastOpening bodies, OpensLate zone now body) ∨
    ∃ body ∈ lastClosing bodies, ClosesLate zone now body

instance (body : Bytes) : Decidable (OpensLate zone now body) :=
  inferInstanceAs (Decidable (∃ span ∈ relativeSpan body, _))

instance (body : Bytes) : Decidable (ClosesLate zone now body) :=
  inferInstanceAs (Decidable ((∃ span ∈ relativeSpan body, _) ∨ _))

instance (bodies : List Bytes) : Decidable (TooLate zone now bodies) :=
  inferInstanceAs (Decidable ((∃ body ∈ lastOpening bodies, _) ∨ ∃ body ∈ lastClosing bodies, _))

variable {zone now} {body : Bytes}

theorem not_endsCalendar_of_relative {span : Int × Int} (relative : relativeSpan body = some span) :
    ¬ EndsCalendar body := by
  have short : ∀ w ∈ [lit "today", lit "yesterday", lit "week", lit "month", lit "year"],
      w.length ≠ 8 ∧ w.length ≠ 10 ∧ w.length ≠ 15 ∧ w.length ≠ 17 := by decide
  have member : lower body ∈ [lit "today", lit "yesterday", lit "week", lit "month", lit "year"] := by
    simp only [relativeSpan] at relative
    simp only [List.mem_cons, List.not_mem_nil, or_false]
    split_ifs at relative <;> simp only [*, true_or, or_true]
  exact not_endsCalendar_of_length (short _ member)

theorem opensLate_iff {span : Int × Int} (relative : relativeSpan body = some span) :
    OpensLate zone now body ↔ endOfYears zone ≤ now - span.1 := by
  simp [OpensLate, relative]

theorem not_opensLate (absolute : relativeSpan body = none) : ¬ OpensLate zone now body := by
  simp [OpensLate, absolute]

theorem closesLate_iff {span : Int × Int} (relative : relativeSpan body = some span) :
    ClosesLate zone now body ↔ endOfYears zone ≤ now + span.2 := by
  simp [ClosesLate, relative, not_endsCalendar_of_relative relative]

theorem closesLate_of_absolute (absolute : relativeSpan body = none) :
    ClosesLate zone now body ↔ EndsCalendar body := by
  simp [ClosesLate, absolute]

theorem TokenUpdate.opens {set : DateRange} (update : TokenUpdate zone now body set)
    (recent : 2 * 365 * 86400 ≤ now) (opens : closingBody body = false) :
    ∃ first, set.afterUnixSeconds = some first ∧ Edge zone first (OpensLate zone now body) := by
  have late := zone.lt_midnight_add now
  cases update with
  | today _ near relative =>
    refine ⟨_, rfl, sound_of_le zone (by omega), ?_⟩
    rw [opensLate_iff relative, endOfYears_le_midnight, Int.sub_neg]
  | span _ relative _ short =>
    refine ⟨_, rfl, sound_of_le zone (by simp only [kDay] at short; omega), ?_⟩
    rw [opensLate_iff relative]
  | opening _ absolute parsed =>
    exact ⟨_, rfl, (parseIsoDayLocal_isDay zone parsed).edge (not_opensLate absolute)⟩
  | closing closing =>
    rw [opens] at closing
    cases closing
  | days _ absolute first => exact ⟨_, rfl, first.edge (not_opensLate absolute)⟩
  | month _ absolute first => exact ⟨_, rfl, first.edge (not_opensLate absolute)⟩

theorem TokenUpdate.closes {set : DateRange} (update : TokenUpdate zone now body set)
    (recent : 2 * 365 * 86400 ≤ now) (closes : openingBody body = false) :
    ∃ last, set.beforeUnixSeconds = some last ∧ Edge zone last (ClosesLate zone now body) := by
  have late := zone.lt_midnight_add now
  cases update with
  | @today dayDelta _ near relative =>
    refine ⟨_, rfl, sound_of_le zone (by omega), ?_⟩
    have next := endOfYears_le_midnight zone now (dayDelta + 1)
    rw [closesLate_iff relative]
    omega
  | span _ relative =>
    refine ⟨_, rfl, sound_of_le zone (by omega), ?_⟩
    rw [closesLate_iff relative]
  | opening opening =>
    rw [closes] at opening
    cases opening
  | closing closing absolute parsed =>
    have never := not_endsCalendar_before zone closing parsed
    rw [← closesLate_of_absolute absolute] at never
    exact ⟨_, rfl, (parseIsoDayLocal_isDay zone parsed).edge never⟩
  | days _ absolute _ isDay last =>
    rw [← closesLate_of_absolute absolute] at last
    exact ⟨_, rfl, isDay.edge_next last⟩
  | month _ absolute _ isDay never =>
    rw [← closesLate_of_absolute absolute] at never
    exact ⟨_, rfl, isDay.edge never⟩

end Late

/-- What the runtime reads keeps every field of the filter except the detail terms
and the time of day of its bounds. -/
structure ReadsBack (filter read : SearchFilter) : Prop where
  text : read.text = filter.text
  extensions : read.extensions = filter.extensions
  pinnedOnly : read.pinnedOnly = filter.pinnedOnly
  after : read.modified.afterUnixSeconds.isSome = filter.modified.afterUnixSeconds.isSome
  before : read.modified.beforeUnixSeconds.isSome = filter.modified.beforeUnixSeconds.isSome
  scope : read.scope = .file
  detailTerms : read.detailTerms = []

section Reparse
variable (zone : Zone) (dialect : PlatformDialect) (now : Int) (observed : List Bytes) (query : Bytes)

/-- Every bound reads back as a date. -/
def DateRange.Reads (modified : DateRange) : Prop :=
  (∀ after ∈ modified.afterUnixSeconds, (SearchDialect.dayRound zone after).isSome = true) ∧
    ∀ before ∈ modified.beforeUnixSeconds, (SearchDialect.dayRound zone before).isSome = true

theorem isSome_bind_dayRound {bound : Option Int} :
    (bound.bind (dayRound zone)).isSome = bound.isSome ↔
      ∀ t ∈ bound, (dayRound zone t).isSome = true := by
  cases bound <;> simp

theorem lostBound_eq_nil {name : Bytes} (named : name = lit "after:" ∨ name = lit "before:")
    {bound : Option Int} (reads : ∀ t ∈ bound, (dayRound zone t).isSome = true) :
    lostBound zone dialect observed name bound = [] := by
  rw [lostBound]
  rcases words_dayToken zone dialect named bound with ⟨none, -⟩ | ⟨t, present, single⟩
  · rw [none]
    rfl
  · have cls := classifyToken_bound zone dialect observed named t
    rw [if_pos (reads t present)] at cls
    simp [single, cls]

/-- A printed bound that reads as no date is the only loss. -/
theorem readsBack_iff_reads :
    ReadsBack (parseSearchQuery zone dialect now observed query)
        (recompiled zone dialect now observed query) ↔
      (parseSearchQuery zone dialect now observed query).modified.Reads zone := by
  have readable := readable_parseSearchQuery zone dialect now observed query
  generalize parsed : parseSearchQuery zone dialect now observed query = filter at readable
  rw [recompiled, parsed, parse_compile now readable]
  constructor
  · intro back
    exact ⟨(isSome_bind_dayRound zone).mp back.after, (isSome_bind_dayRound zone).mp back.before⟩
  · rintro ⟨after, before⟩
    refine ⟨?_, rfl, rfl, (isSome_bind_dayRound zone).mpr after, (isSome_bind_dayRound zone).mpr before,
      rfl, rfl⟩
    rw [lostBound_eq_nil zone dialect observed (.inl rfl) after,
      lostBound_eq_nil zone dialect observed (.inr rfl) before, readable.text]
    simp

end Reparse

section Deciding
variable {zone : Zone} {now : Int} {bodies : List Bytes}

/-- The bound of the last token that sets it reads back unless that token is late. -/
theorem last_reads_iff {p : Bytes → Bool} {bound : Bytes → Option Int} {Late : Bytes → Prop}
    (edges : ∀ body ∈ bodies, p body = true → ∃ t, bound body = some t ∧ Edge zone t (Late body)) :
    (∀ t ∈ (bodies.filter p).getLast?.bind bound, (dayRound zone t).isSome = true) ↔
      ¬ ∃ body ∈ (bodies.filter p).getLast?, Late body := by
  cases last : (bodies.filter p).getLast? with
  | none => simp
  | some body =>
    obtain ⟨edges, kept⟩ := mem_of_last edges last
    obtain ⟨t, sets, edge⟩ := edges kept
    simp [sets, dayRound_isSome_iff zone edge.sound, ← edge.past]

/-- The bounds read back unless a deciding token leaves the supported years. -/
theorem dateRange_reads_iff (recent : 2 * 365 * 86400 ≤ now)
    (valid : ∀ body ∈ bodies, TokenUpdate zone now body (dateUpdate zone now body)) :
    (dateRange zone now {} bodies).Reads zone ↔ ¬ TooLate zone now bodies := by
  have opens := last_reads_iff (p := fun body => !closingBody body) fun body member opening =>
    (valid body member).opens recent (by simpa using opening)
  have closes := last_reads_iff (p := fun body => !openingBody body) fun body member closing =>
    (valid body member).closes recent (by simpa using closing)
  rw [dateRange_eq zone now fun body member => (valid body member).step, TooLate, not_or]
  exact and_congr opens closes

end Deciding

section Meaning
variable (zone : Zone) (dialect : PlatformDialect) (now : Int) (observed : List Bytes) (query : Bytes)

/-- The query sent to the runtime keeps its meaning exactly when no deciding date
token runs past the last supported day. -/
theorem recompiled_readsBack_iff (recent : 2 * 365 * 86400 ≤ now) :
    ReadsBack (parseSearchQuery zone dialect now observed query)
        (recompiled zone dialect now observed query) ↔
      ¬ TooLate zone now (queryDates zone dialect observed query) := by
  rw [readsBack_iff_reads, modified_parseSearchQuery]
  exact dateRange_reads_iff recent (queryDates_update zone now recent dialect observed query)

theorem months_read_back :
    2 * 365 * 86400 ≤ (1800000000 : Int) ∧
      ReadsBack (parseSearchQuery .utc .windows 1800000000 [] (lit "report /2026-07"))
        (recompiled .utc .windows 1800000000 [] (lit "report /2026-07")) := by
  have recent : 2 * 365 * 86400 ≤ (1800000000 : Int) := by decide
  exact ⟨recent, (recompiled_readsBack_iff .utc .windows 1800000000 [] (lit "report /2026-07")
    recent).mpr (by decide +kernel)⟩

/-- The upper bound of the last supported day comes back as a word to search for. -/
theorem last_day_turns_into_text :
    2 * 365 * 86400 ≤ (1800000000 : Int) ∧
      (recompiled .utc .windows 1800000000 [] (lit "/9999-12-31")).text =
        lit "/before:10000-01-01" ∧
      ¬ ReadsBack (parseSearchQuery .utc .windows 1800000000 [] (lit "/9999-12-31"))
        (recompiled .utc .windows 1800000000 [] (lit "/9999-12-31")) := by
  refine ⟨by decide, by decide +kernel, fun back => ?_⟩
  have lost : (recompiled .utc .windows 1800000000 [] (lit "/9999-12-31")).text ≠
      (parseSearchQuery .utc .windows 1800000000 [] (lit "/9999-12-31")).text := by decide +kernel
  exact lost back.text

end Meaning
end Such.SearchDialect
