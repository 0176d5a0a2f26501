import Such.Ui.SearchDialect.DateTokens

/-! Which files the runtime can still return for a date filter. Printing a bound as
a day moves it back to midnight: harmless for a lower bound, a loss for an upper
bound inside a day. Only the relative spans produce one. -/
namespace Such.SearchDialect
open ByteText CivilTime

def DateRange.Admits (modified : DateRange) (t : Int) : Prop :=
  (∀ after ∈ modified.afterUnixSeconds, after ≤ t) ∧
    ∀ before ∈ modified.beforeUnixSeconds, t < before

instance (modified : DateRange) (t : Int) : Decidable (modified.Admits t) :=
  inferInstanceAs (Decidable (_ ∧ _))

namespace DateRange

/-- The bounds leave no moment. -/
def Empty (modified : DateRange) : Prop :=
  ∃ after ∈ modified.afterUnixSeconds, ∃ before ∈ modified.beforeUnixSeconds, before ≤ after

/-- Each bound of `outer` is met by a bound of `inner`. -/
def Bounds (inner outer : DateRange) : Prop :=
  (∀ after ∈ outer.afterUnixSeconds, ∃ first ∈ inner.afterUnixSeconds, after ≤ first) ∧
    ∀ before ∈ outer.beforeUnixSeconds, ∃ last ∈ inner.beforeUnixSeconds, last ≤ before

instance (modified : DateRange) : Decidable modified.Empty :=
  inferInstanceAs (Decidable (∃ after ∈ modified.afterUnixSeconds,
    ∃ before ∈ modified.beforeUnixSeconds, before ≤ after))

instance (inner outer : DateRange) : Decidable (inner.Bounds outer) :=
  inferInstanceAs (Decidable ((∀ after ∈ outer.afterUnixSeconds,
    ∃ first ∈ inner.afterUnixSeconds, after ≤ first) ∧
    ∀ before ∈ outer.beforeUnixSeconds, ∃ last ∈ inner.beforeUnixSeconds, last ≤ before))

theorem exists_admits_iff (modified : DateRange) : (∃ t, modified.Admits t) ↔ ¬ modified.Empty := by
  obtain ⟨after, before⟩ := modified
  simp only [Admits, Empty]
  cases after with
  | none =>
    cases before with
    | none => simp
    | some before => simpa using ⟨before - 1, by omega⟩
  | some after =>
    cases before with
    | none => simpa using ⟨after, Int.le_refl after⟩
    | some before =>
      simp only [Option.mem_def, Option.some.injEq, forall_eq', exists_eq_left', Int.not_le]
      exact ⟨fun ⟨t, low, high⟩ => by omega, fun room => ⟨after, by omega, room⟩⟩

/-- One window lies inside another exactly when its bounds say so, or it is empty. -/
theorem admits_imp_iff (inner outer : DateRange) :
    (∀ t, inner.Admits t → outer.Admits t) ↔ inner.Empty ∨ inner.Bounds outer := by
  constructor
  · intro within
    by_cases empty : inner.Empty
    · exact .inl empty
    obtain ⟨t, admitted⟩ := (exists_admits_iff inner).mpr empty
    refine .inr ⟨fun after opens => ?_, fun before closes => ?_⟩
    · cases low : inner.afterUnixSeconds with
      | none =>
        have early : inner.Admits (min t (after - 1)) := by
          refine ⟨by simp [low], fun bound member => ?_⟩
          have := admitted.2 bound member
          omega
        have := (within _ early).1 after opens
        omega
      | some first =>
        refine ⟨first, rfl, ?_⟩
        have start : inner.Admits first := by
          refine ⟨by simp [low], fun bound member => ?_⟩
          have upper := admitted.2 bound member
          have lower := admitted.1 first low
          omega
        exact (within _ start).1 after opens
    · cases high : inner.beforeUnixSeconds with
      | none =>
        have late : inner.Admits (max t before) := by
          refine ⟨fun bound member => ?_, by simp [high]⟩
          have := admitted.1 bound member
          omega
        have := (within _ late).2 before closes
        omega
      | some last =>
        refine ⟨last, rfl, ?_⟩
        have finish : inner.Admits (last - 1) := by
          refine ⟨fun bound member => ?_, by simp [high]⟩
          have lower := admitted.1 bound member
          have upper := admitted.2 last high
          omega
        have := (within _ finish).2 before closes
        omega
  · rintro (empty | ⟨low, high⟩) t admitted
    · exact absurd empty ((exists_admits_iff inner).mp ⟨t, admitted⟩)
    · constructor
      · intro after opens
        obtain ⟨first, member, below⟩ := low after opens
        exact Int.le_trans below (admitted.1 first member)
      · intro before closes
        obtain ⟨last, member, below⟩ := high before closes
        exact Int.lt_of_lt_of_le (admitted.2 last member) below

end DateRange

/-- The local years the date readers accept. -/
def InYears (zone : Zone) (t : Int) : Prop :=
  1970 ≤ (civilFromDays (zone.dayOf t)).year ∧ (civilFromDays (zone.dayOf t)).year ≤ 9999

instance (zone : Zone) (t : Int) : Decidable (InYears zone t) :=
  inferInstanceAs (Decidable (_ ∧ _))

def DateRange.InYears (zone : Zone) (modified : DateRange) : Prop :=
  (∀ after ∈ modified.afterUnixSeconds, SearchDialect.InYears zone after) ∧
    ∀ before ∈ modified.beforeUnixSeconds, SearchDialect.InYears zone before

instance (zone : Zone) (modified : DateRange) : Decidable (modified.InYears zone) :=
  inferInstanceAs (Decidable (_ ∧ _))

section Deciding
variable (zone : Zone) (now : Int)

/-- The last date token that sets the upper bound. -/
def lastClosing (bodies : List Bytes) : Option Bytes :=
  (bodies.filter fun body => !openingBody body).getLast?

/-- The last date token that sets the lower bound. -/
def lastOpening (bodies : List Bytes) : Option Bytes :=
  (bodies.filter fun body => !closingBody body).getLast?

/-- The upper bound comes from a week, month or year token. -/
def SpanClosed (bodies : List Bytes) : Prop := ∃ body ∈ lastClosing bodies, spanBody body = true

/-- The lower bound is an `after:` day that has not begun yet. -/
def LateOpening (bodies : List Bytes) : Prop :=
  ∃ body ∈ lastOpening bodies, openingBody body = true ∧
    ∃ day ∈ parseIsoDayLocal zone ((lower body).drop 6), now < day

instance (bodies : List Bytes) : Decidable (SpanClosed bodies) :=
  inferInstanceAs (Decidable (∃ body ∈ lastClosing bodies, _))

instance (bodies : List Bytes) : Decidable (LateOpening zone now bodies) :=
  inferInstanceAs (Decidable (∃ body ∈ lastOpening bodies, _ ∧ ∃ day ∈ parseIsoDayLocal _ _, _))

/-- Day precision costs the query no file. -/
def RoundsOutward (bodies : List Bytes) : Prop :=
  SpanClosed bodies → zone.IsMidnight (now + 1) ∨ LateOpening zone now bodies

instance (bodies : List Bytes) : Decidable (RoundsOutward zone now bodies) :=
  inferInstanceAs (Decidable (_ → _))

theorem filter_last_eq {p q : Bytes → Bool} {bodies : List Bytes} {x y : Bytes}
    (lastP : (bodies.filter p).getLast? = some x) (alsoQ : q x = true)
    (lastQ : (bodies.filter q).getLast? = some y) (alsoP : p y = true) : x = y := by
  induction bodies using List.reverseRecOn with
  | nil => simp at lastP
  | append_singleton bodies z ih =>
    by_cases hp : p z = true <;> by_cases hq : q z = true <;>
      simp only [List.filter_append, List.filter_cons, hp, hq, if_true, List.filter_nil,
        Bool.false_eq_true, if_false, List.append_nil, List.getLast?_append,
        List.getLast?_singleton, Option.some_or, Option.some.injEq] at lastP lastQ
    · exact lastP.symm.trans lastQ
    · exact absurd (lastP ▸ alsoQ) hq
    · exact absurd (lastQ ▸ alsoP) hp
    · exact ih lastP lastQ

theorem span_plain {body : Bytes} (span : spanBody body = true) :
    openingBody body = false ∧ closingBody body = false := by
  simp only [spanBody, Bool.or_eq_true, decide_eq_true_eq] at span
  simp only [openingBody, closingBody]
  rcases span with (same | same) | same <;> rw [same] <;> decide

theorem opening_plain {body : Bytes} (opening : openingBody body = true) :
    closingBody body = false := by
  simp only [openingBody] at opening
  simp only [closingBody]
  rw [eq_append_of_startsWith opening]
  rfl

theorem closing_plain {body : Bytes} (closing : closingBody body = true) :
    openingBody body = false := by
  cases opening : openingBody body with
  | false => rfl
  | true => exact absurd (opening_plain opening) (by simp [closing])

/-- A run of valid date tokens leaves the bounds of the last token that sets each. -/
theorem dateRange_eq {bodies : List Bytes}
    (valid : ∀ body ∈ bodies, DateStep zone now body (dateUpdate zone now body)) :
    dateRange zone now {} bodies =
      ⟨(lastOpening bodies).bind fun body => (dateUpdate zone now body).afterUnixSeconds,
        (lastClosing bodies).bind fun body => (dateUpdate zone now body).beforeUnixSeconds⟩ := by
  induction bodies using List.reverseRecOn with
  | nil => rfl
  | append_singleton bodies body ih =>
    have step := valid body (by simp)
    rw [dateRange_append, ih fun b member => valid b (by simp [member])]
    have single : ∀ start, dateRange zone now start [body] = start.override (dateUpdate zone now body) :=
      fun start => applyDateToken_eq zone now start body
    rw [single]
    generalize update : dateUpdate zone now body = set at step
    simp only [DateRange.override, lastOpening, lastClosing]
    cases step with
    | span isSpan =>
      obtain ⟨opening, closing⟩ := span_plain isSpan
      simp [opening, closing, update]
    | opening opening =>
      have closing := opening_plain opening
      simp [opening, closing, update]
    | closing closing =>
      have opening := closing_plain closing
      simp [opening, closing, update]
    | days _ opening closing => simp [opening, closing, update]

/-- Compact dates are valid controls too. -/
theorem compact_valid {v : Bytes} (compact : ((parseCompactRangeLocal zone v).isSome ||
      (parseCompactDayAsRange zone v).isSome) = true) :
    isValidControl zone v = true ∧ lower v ≠ lit "pin" := by
  cases v with
  | nil => revert compact; rintro ⟨⟩
  | cons c v =>
    have digit : isDigit c = true := by
      cases digit : isDigit c with
      | true => rfl
      | false =>
        obtain ⟨range, day⟩ := compact_none_of_head zone (v := v) digit
        rw [range, day] at compact
        cases compact
    have letter : ∀ (w : UInt8) (rest : Bytes), 97 ≤ w.toNat → lower (c :: v) ≠ w :: rest := by
      intro w rest high same
      have first : toLower c = w := (List.cons.inj same).1
      rw [toLower_of_isDigit digit] at first
      rw [isDigit_iff, first] at digit
      omega
    have word : ∀ (w : UInt8) (rest : Bytes), 97 ≤ w.toNat →
        startsWith (lower (c :: v)) (w :: rest) ≠ true := by
      intro w rest high starts
      exact letter w _ high (eq_append_of_startsWith starts)
    have date : startsWith (lower (c :: v)) (lit "date:") ≠ true := word 100 _ (by decide)
    have after : startsWith (lower (c :: v)) (lit "after:") ≠ true := word 97 _ (by decide)
    have before : startsWith (lower (c :: v)) (lit "before:") ≠ true := word 98 _ (by decide)
    refine ⟨?_, letter 112 _ (by decide)⟩
    unfold isValidControl
    dsimp only
    rw [parseCompactRangeLocal_lower, parseCompactDayAsRange_lower, if_neg date, if_neg after,
      if_neg before, if_pos compact]
    split <;> rfl

theorem date_of_classifyToken {dialect : PlatformDialect} {observed : List Bytes} {token body : Bytes}
    (cls : classifyToken zone dialect observed token = .date body) :
    isValidControl zone body = true ∧ lower body ≠ lit "pin" := by
  unfold classifyToken at cls
  split at cls
  · cases cls
  split at cls
  · rename_i compact
    injection cls with same
    exact same ▸ compact_valid zone compact
  split at cls
  · cases cls
  dsimp only at cls
  split at cls
  · cases cls
  rename_i notPin
  split at cls
  · rename_i valid
    injection cls with same
    exact same ▸ ⟨valid, notPin⟩
  split at cls <;> cases cls

/-- The date tokens of a query, in order. -/
def queryDates (dialect : PlatformDialect) (observed : List Bytes) (query : Bytes) : List Bytes :=
  tokenDates zone dialect observed (queryTokens query)

theorem queryDates_update (recent : 2 * 365 * 86400 ≤ now) (dialect : PlatformDialect)
    (observed : List Bytes) (query : Bytes) :
    ∀ body ∈ queryDates zone dialect observed query,
      TokenUpdate zone now body (dateUpdate zone now body) := by
  intro body member
  obtain ⟨token, -, found⟩ := List.mem_filterMap.mp member
  have cls : classifyToken zone dialect observed token = .date body := by
    cases cls : classifyToken zone dialect observed token <;>
      simp only [cls, TokenClass.dateBody?, reduceCtorEq, Option.some.injEq] at found
    rw [found]
  obtain ⟨valid, notPin⟩ := date_of_classifyToken zone cls
  exact dateUpdate_tokenUpdate zone now (by omega) valid notPin

theorem queryDates_step (recent : 2 * 365 * 86400 ≤ now) (dialect : PlatformDialect)
    (observed : List Bytes) (query : Bytes) :
    ∀ body ∈ queryDates zone dialect observed query,
      DateStep zone now body (dateUpdate zone now body) :=
  fun body member => (queryDates_update zone now recent dialect observed query body member).step

end Deciding

section Precision
variable (zone : Zone) (now : Int)

theorem dayRound_le {t r : Int} (years : InYears zone t) (round : dayRound zone t = some r) :
    r ≤ t := by
  rw [dayRound_eq zone years.1 years.2] at round
  split at round
  · cases round
  · rw [← Option.some.inj round]
    exact zone.midnight_le t

theorem dayRound_midnight {t r : Int} (years : InYears zone t) (mid : zone.IsMidnight t)
    (round : dayRound zone t = some r) : r = t := by
  rw [dayRound_eq zone years.1 years.2, mid] at round
  split at round
  · cases round
  · exact (Option.some.inj round).symm

/-- The window of the recompiled query is the day-rounded window. -/
def DateRange.dayRound (modified : DateRange) : DateRange :=
  ⟨modified.afterUnixSeconds.bind (SearchDialect.dayRound zone),
    modified.beforeUnixSeconds.bind (SearchDialect.dayRound zone)⟩

theorem mem_of_last {P : Bytes → Prop} {bodies : List Bytes} (valid : ∀ body ∈ bodies, P body)
    {p : Bytes → Bool} {body : Bytes} (last : (bodies.filter p).getLast? = some body) :
    P body ∧ p body = true := by
  obtain ⟨member, sets⟩ := List.mem_filter.mp (List.mem_of_getLast? last)
  exact ⟨valid body member, sets⟩

variable {bodies : List Bytes}
  (valid : ∀ body ∈ bodies, DateStep zone now body (dateUpdate zone now body))
include valid

/-- A rounded upper bound still admits what it admitted. -/
theorem upper_kept (outward : RoundsOutward zone now bodies)
    (years : (dateRange zone now {} bodies).InYears zone) {t before : Int}
    (admitted : (dateRange zone now {} bodies).Admits t)
    (bound : before ∈ ((dateRange zone now {} bodies).dayRound zone).beforeUnixSeconds) :
    t < before := by
  have spec := dateRange_eq zone now valid
  rw [spec] at admitted years bound
  obtain ⟨lower, upper⟩ := admitted
  obtain ⟨set, closes, round⟩ := Option.bind_eq_some_iff.mp bound
  obtain ⟨body, last, sets⟩ := Option.bind_eq_some_iff.mp closes
  have below : t < set := upper set closes
  have supported : InYears zone set := years.2 set closes
  obtain ⟨step, closing⟩ := mem_of_last valid last
  have midnight : zone.IsMidnight set → t < before := by
    intro mid
    rw [dayRound_midnight zone supported mid round]
    exact below
  generalize update : dateUpdate zone now body = bounds at step sets
  cases step with
  | span isSpan first =>
    injection sets with sets
    subst sets
    rcases outward ⟨body, last, isSpan⟩ with mid | ⟨opener, lastOpen, opens, day, parsed, late⟩
    · exact midnight mid
    · have opened := (mem_of_last valid lastOpen).1
      have after : (dateUpdate zone now opener).afterUnixSeconds = some day := by
        generalize (dateUpdate zone now opener) = bounds at opened
        cases opened with
        | opening _ same => exact same.symm.trans parsed
        | span isSpan => exact absurd opens (by simp [(span_plain isSpan).1])
        | closing closes => exact absurd opens (by simp [closing_plain closes])
        | days _ plain => exact absurd opens (by simp [plain])
      have above : day ≤ t := lower day (Option.bind_eq_some_iff.mpr ⟨opener, lastOpen, after⟩)
      omega
  | opening => cases sets
  | closing _ parsed =>
    injection sets with sets
    exact midnight (sets ▸ (parseIsoDayLocal_isDay zone parsed).midnight)
  | days _ _ _ _ mid =>
    injection sets with sets
    exact midnight (sets ▸ mid)

/-- The moment of the search itself is lost when the condition fails. -/
theorem now_lost (recent : 2 * 365 * 86400 ≤ now) (inward : ¬ RoundsOutward zone now bodies)
    (years : (dateRange zone now {} bodies).InYears zone) :
    (dateRange zone now {} bodies).Admits now ∧
      ¬ ((dateRange zone now {} bodies).dayRound zone).Admits now := by
  have spec := dateRange_eq zone now valid
  simp only [RoundsOutward, Classical.not_imp, not_or] at inward
  obtain ⟨⟨body, last, isSpan⟩, notMid, notLate⟩ := inward
  have step := (mem_of_last valid last).1
  have closes : (dateUpdate zone now body).beforeUnixSeconds = some (now + 1) := by
    generalize dateUpdate zone now body = bounds at step
    cases step with
    | span => rfl
    | opening opens => exact absurd (span_plain isSpan).1 (by simp [opens])
    | closing closing => exact absurd (span_plain isSpan).2 (by simp [closing])
    | days plain => exact absurd isSpan (by simp [plain])
  have before : (dateRange zone now {} bodies).beforeUnixSeconds = some (now + 1) := by
    rw [spec]
    exact Option.bind_eq_some_iff.mpr ⟨body, last, closes⟩
  refine ⟨⟨fun after opens => ?_, fun bound closing => ?_⟩, fun admitted => ?_⟩
  · rw [spec] at opens
    obtain ⟨opener, lastOpen, sets⟩ := Option.bind_eq_some_iff.mp opens
    obtain ⟨opened, opening⟩ := mem_of_last valid lastOpen
    generalize update : dateUpdate zone now opener = bounds at opened sets
    cases opened with
    | span _ first =>
      injection sets with sets
      omega
    | opening isOpening parsed =>
      injection sets with sets
      subst sets
      by_contra late
      exact notLate ⟨opener, lastOpen, isOpening, _, parsed, by omega⟩
    | closing => cases sets
    | days plain notOpening notClosing =>
      -- A token that sets both bounds is the last of both kinds, so it is the span.
      have same := filter_last_eq last (by simp [(span_plain isSpan).2]) lastOpen
        (by simp [notOpening])
      rw [same, plain] at isSpan
      cases isSpan
  · rw [before] at closing
    injection closing with same
    omega
  · have years := years.2 _ before
    have late := zone.lt_midnight_add (now + 1)
    have low := zone.midnight_le (now + 1)
    have round : SearchDialect.dayRound zone (now + 1) = some (zone.midnight (now + 1)) := by
      rw [dayRound_eq zone years.1 years.2, if_neg (by omega)]
    have kept : zone.midnight (now + 1) ∈
        ((dateRange zone now {} bodies).dayRound zone).beforeUnixSeconds := by
      simp only [DateRange.dayRound, before, Option.bind_some]
      exact round
    have below := admitted.2 _ kept
    have off : zone.midnight (now + 1) ≠ now + 1 := notMid
    omega

end Precision

section Recompiled
variable (zone : Zone) (dialect : PlatformDialect) (now : Int) (observed : List Bytes) (query : Bytes)

/-- The filter the runtime reads from the query sent to it. -/
def recompiled : SearchFilter :=
  parseSearchQuery zone dialect now observed
    (compileRuntimeQuery zone dialect (parseSearchQuery zone dialect now observed query))

theorem modified_parseSearchQuery : (parseSearchQuery zone dialect now observed query).modified =
    dateRange zone now {} (queryDates zone dialect observed query) := by
  rw [parseSearchQuery_eq]
  rfl

theorem modified_recompiled : (recompiled zone dialect now observed query).modified =
    (dateRange zone now {} (queryDates zone dialect observed query)).dayRound zone := by
  rw [recompiled, parse_compile now (readable_parseSearchQuery zone dialect now observed query),
    modified_parseSearchQuery]
  rfl

/-- The query sent to the runtime keeps every file the date filter admits exactly
when the token deciding the upper bound is not a span ending inside a day. -/
theorem recompiled_admits_iff (recent : 2 * 365 * 86400 ≤ now)
    (years : (parseSearchQuery zone dialect now observed query).modified.InYears zone) :
    (∀ t, (parseSearchQuery zone dialect now observed query).modified.Admits t →
        (recompiled zone dialect now observed query).modified.Admits t) ↔
      RoundsOutward zone now (queryDates zone dialect observed query) := by
  have valid := queryDates_step zone now recent dialect observed query
  rw [modified_recompiled]
  rw [modified_parseSearchQuery] at years ⊢
  constructor
  · intro keeps
    by_contra inward
    obtain ⟨admitted, lost⟩ := now_lost zone now valid recent inward years
    exact lost (keeps now admitted)
  · intro outward t admitted
    constructor
    · intro after opens
      obtain ⟨bound, sets, round⟩ := Option.bind_eq_some_iff.mp opens
      have below := dayRound_le zone (years.1 bound sets) round
      have above := admitted.1 bound sets
      omega
    · intro before closes
      exact upper_kept zone now valid outward years admitted closes

theorem months_keep_every_file :
    (parseSearchQuery .utc .windows 1800000000 [] (lit "report /2026-07")).modified.InYears .utc ∧
      ∀ t, (parseSearchQuery .utc .windows 1800000000 [] (lit "report /2026-07")).modified.Admits t →
        (recompiled .utc .windows 1800000000 [] (lit "report /2026-07")).modified.Admits t := by
  have years : (parseSearchQuery .utc .windows 1800000000 [] (lit "report /2026-07")).modified.InYears
      .utc := by decide +kernel
  exact ⟨years, (recompiled_admits_iff .utc .windows 1800000000 [] (lit "report /2026-07") (by decide)
    years).mpr (by decide +kernel)⟩

/-- A file written at the moment of the search falls out of its own week. -/
theorem week_loses_the_current_day :
    2 * 365 * 86400 ≤ (1800000000 : Int) ∧
      (parseSearchQuery .utc .windows 1800000000 [] (lit "/week")).modified.InYears .utc ∧
      ¬ ∀ t, (parseSearchQuery .utc .windows 1800000000 [] (lit "/week")).modified.Admits t →
        (recompiled .utc .windows 1800000000 [] (lit "/week")).modified.Admits t := by
  refine ⟨by decide, by decide +kernel, fun keeps => ?_⟩
  have lost : (parseSearchQuery .utc .windows 1800000000 [] (lit "/week")).modified.Admits 1800000000 ∧
      ¬ (recompiled .utc .windows 1800000000 [] (lit "/week")).modified.Admits 1800000000 := by
    decide +kernel
  exact lost.2 (keeps 1800000000 lost.1)

end Recompiled
end Such.SearchDialect
