import Such.Ui.SearchDialect.Tokens
import Such.Ui.SearchDialect.Dates

/-! Reading back a compiled runtime query. Text, extensions and the pin flag return
unchanged; each time bound returns with day precision, or not at all. -/
namespace Such.SearchDialect
open ByteText CivilTime

section Days
variable (zone : Zone)

/-- A bound after one trip through its printed day. -/
def dayRound (bound : Int) : Option Int := parseIsoDayLocal zone (isoLocalDay zone bound)

theorem isoLocalDay_eq (t : Int) :
    isoLocalDay zone t =
      let date := civilFromDays (zone.dayOf t)
      let text := decimalInt date.year ++ 45 :: fixedDigits 2 date.month.toNat ++
        45 :: fixedDigits 2 date.day.toNat
      if text.length < 16 then text else [] := by
  obtain ⟨year, month, day⟩ := zone.localtime_date t
  simp only [isoLocalDay, year, month, day]

theorem isoLocalDay_bytes {t : Int} {c : UInt8} (member : c ∈ isoLocalDay zone t) :
    isDigit c = true ∨ c = 45 := by
  have year : ∀ n : Int, c ∈ decimalInt n → isDigit c = true ∨ c = 45 := by
    intro n inside
    cases n with
    | ofNat n => exact .inl (isDigit_of_mem_decimal inside)
    | negSucc n =>
      rcases List.mem_cons.mp inside with rfl | inside
      · exact .inr rfl
      · exact .inl (isDigit_of_mem_decimal inside)
  rw [isoLocalDay_eq] at member
  dsimp only at member
  split at member
  · simp only [List.mem_append, List.mem_cons] at member
    rcases member with (inside | same | inside) | same | inside
    · exact year _ inside
    · exact .inr same
    · exact .inl (isDigit_of_mem_fixedDigits inside)
    · exact .inr same
    · exact .inl (isDigit_of_mem_fixedDigits inside)
  · cases member

theorem isoLocalDay_plain {t : Int} {c : UInt8} (member : c ∈ isoLocalDay zone t) :
    isSpace c = false ∧ c ≠ 59 ∧ toLower c = c := by
  rcases isoLocalDay_bytes zone member with digit | rfl
  · refine ⟨?_, ?_, toLower_of_isDigit digit⟩
    · rw [isDigit_iff] at digit
      rw [Bool.eq_false_iff, ne_eq, isSpace_iff]
      omega
    · rintro rfl
      revert digit
      decide
  · decide

/-- A four-digit year prints in the fixed ten-byte layout. -/
theorem isoLocalDay_year {t : Int} (low : 1000 ≤ (civilFromDays (zone.dayOf t)).year)
    (high : (civilFromDays (zone.dayOf t)).year ≤ 9999) :
    isoLocalDay zone t = fixedDigits 4 (civilFromDays (zone.dayOf t)).year.toNat ++
      45 :: (fixedDigits 2 (civilFromDays (zone.dayOf t)).month.toNat ++
        45 :: fixedDigits 2 (civilFromDays (zone.dayOf t)).day.toNat) := by
  have year : decimalInt (civilFromDays (zone.dayOf t)).year =
      fixedDigits 4 (civilFromDays (zone.dayOf t)).year.toNat := by
    obtain ⟨n, same⟩ := Int.eq_ofNat_of_zero_le
      (show 0 ≤ (civilFromDays (zone.dayOf t)).year by omega)
    rw [same] at low high ⊢
    exact decimal_eq_fixedDigits_four (by omega) (by omega)
  rw [isoLocalDay_eq]
  simp [year]

theorem parseIsoDayLocal_fixed {y m d : Nat} (hy : y < 10 ^ 4) (hm : m < 10 ^ 2) (hd : d < 10 ^ 2) :
    parseIsoDayLocal zone
      (fixedDigits 4 y ++ 45 :: (fixedDigits 2 m ++ 45 :: fixedDigits 2 d)) =
        localEpochForYmd zone y m d := by
  have years : substr (fixedDigits 4 y ++ 45 :: (fixedDigits 2 m ++ 45 :: fixedDigits 2 d)) 0 4 =
      fixedDigits 4 y := rfl
  have months : substr (fixedDigits 4 y ++ 45 :: (fixedDigits 2 m ++ 45 :: fixedDigits 2 d)) 5 2 =
      fixedDigits 2 m := rfl
  have days : substr (fixedDigits 4 y ++ 45 :: (fixedDigits 2 m ++ 45 :: fixedDigits 2 d)) 8 2 =
      fixedDigits 2 d := rfl
  have shape : ¬ ((fixedDigits 4 y ++ 45 :: (fixedDigits 2 m ++ 45 :: fixedDigits 2 d)).length ≠ 10 ∨
      (fixedDigits 4 y ++ 45 :: (fixedDigits 2 m ++ 45 :: fixedDigits 2 d))[4]? ≠ some 45 ∨
      (fixedDigits 4 y ++ 45 :: (fixedDigits 2 m ++ 45 :: fixedDigits 2 d))[7]? ≠ some 45) := by
    simp [fixedDigits]
  simp only [parseIsoDayLocal, if_neg shape, years, months, days,
    allDigits_fixedDigits (show 0 < 4 by decide), allDigits_fixedDigits (show 0 < 2 by decide),
    digitsValue_fixedDigits hy, digitsValue_fixedDigits hm, digitsValue_fixedDigits hd,
    Bool.not_true, Bool.or_false, Bool.false_eq_true, if_false]

/-- In the supported years a bound is rounded down to its local midnight. -/
theorem dayRound_eq {t : Int} (low : 1970 ≤ (civilFromDays (zone.dayOf t)).year)
    (high : (civilFromDays (zone.dayOf t)).year ≤ 9999) :
    dayRound zone t = if zone.midnight t = -1 then none else some (zone.midnight t) := by
  obtain ⟨⟨monthLow, monthHigh⟩, dayLow, dayHigh⟩ := civilFromDays_range (zone.dayOf t)
  rw [dayRound, isoLocalDay_year zone (by omega) high,
    parseIsoDayLocal_fixed zone (by omega) (by omega) (by omega)]
  rw [Int.toNat_of_nonneg (by omega), Int.toNat_of_nonneg (by omega), Int.toNat_of_nonneg (by omega)]
  exact localEpochForYmd_civil zone low high

end Days

section Operators
variable (zone : Zone) (dialect : PlatformDialect) (now : Int) (observed : List Bytes)

theorem startsWith_append (first rest : Bytes) : startsWith (first ++ rest) first = true :=
  List.isPrefixOf_iff_prefix.mpr (List.prefix_append _ _)

theorem eq_append_of_startsWith {v first : Bytes} (starts : startsWith v first = true) :
    v = first ++ v.drop first.length := by
  obtain ⟨rest, rfl⟩ := List.isPrefixOf_iff_prefix.mp starts
  simp

theorem compactCandidate_operator {c : UInt8} (head : c ≠ 47) (body : Bytes) :
    compactCandidate (operatorPrefix dialect ++ c :: body) = c :: body := by
  have first : ((47 : UInt8) == c) = false := by simpa using head.symm
  cases dialect with
  | windows =>
    have operator : operatorPrefix .windows ++ c :: body = 47 :: c :: body := rfl
    have plain : startsWith (47 :: c :: body) (lit "//") = false := by
      have bytes : lit "//" = [47, 47] := rfl
      simp only [startsWith, bytes, List.isPrefixOf, first, beq_self_eq_true, Bool.false_and,
        Bool.and_false]
    have single : startsWith (47 :: c :: body) (lit "/") = true := by
      have bytes : lit "/" = [47] := rfl
      simp only [startsWith, bytes, List.isPrefixOf, beq_self_eq_true, Bool.true_and]
    simp [compactCandidate, operator, plain, single]
  | unixLike =>
    have both : startsWith (operatorPrefix .unixLike ++ c :: body) (lit "//") = true :=
      startsWith_append _ _
    rw [compactCandidate, if_pos both]
    rfl

/-- What an operator token is taken for, read off the text behind the operator. -/
theorem classifyToken_operator {c : UInt8} (head : c ≠ 47) (body : Bytes)
    (outside : lower (operatorPrefix dialect ++ c :: body) ≠ lit "/inside") :
    classifyToken zone dialect observed (operatorPrefix dialect ++ c :: body) =
      if (parseCompactRangeLocal zone (c :: body)).isSome ||
          (parseCompactDayAsRange zone (c :: body)).isSome then .date (c :: body)
      else if lower (c :: body) = lit "pin" then .pin
      else if isValidControl zone (c :: body) then .date (c :: body)
      else if looksExtension (c :: body) &&
          (extensionRegistry observed).contains (lower (c :: body)) then
        .extension (lower (c :: body))
      else .text := by
  have nonempty : ¬ (!startsWith (operatorPrefix dialect ++ c :: body) (operatorPrefix dialect) ||
      decide ((operatorPrefix dialect ++ c :: body).length = (operatorPrefix dialect).length)) = true := by
    simp [startsWith_append]
  have behind : (operatorPrefix dialect ++ c :: body).drop (operatorPrefix dialect).length =
      c :: body := by simp
  simp only [classifyToken, compactCandidate_operator dialect head, if_neg outside, if_neg nonempty,
    behind]

/-- Where an extension token comes from. -/
theorem extension_of_classifyToken {token ext : Bytes}
    (cls : classifyToken zone dialect observed token = .extension ext) :
    ∃ body, ext = lower body ∧ token = operatorPrefix dialect ++ body ∧
      lower token ≠ lit "/inside" ∧ looksExtension body = true ∧
      ext ∈ extensionRegistry observed := by
  unfold classifyToken at cls
  split at cls
  · cases cls
  rename_i outside
  split at cls
  · cases cls
  split at cls
  · cases cls
  rename_i operator
  dsimp only at cls
  split at cls
  · cases cls
  split at cls
  · cases cls
  split at cls
  · rename_i extension
    simp only [Bool.or_eq_true, Bool.not_eq_true', not_or, Bool.not_eq_false] at operator
    rw [Bool.and_eq_true, List.contains_iff_mem] at extension
    injection cls with same
    rw [same] at extension
    exact ⟨_, same.symm, eq_append_of_startsWith operator.1, outside, extension.1, extension.2⟩
  · cases cls

theorem looksExtension_bytes {body : Bytes} (looks : looksExtension body = true) :
    body ≠ [] ∧ ∀ c ∈ body, c ≠ 47 ∧ isSpace c = false ∧ c ≠ 59 := by
  simp only [looksExtension, Bool.and_eq_true, Bool.not_eq_true', Bool.or_eq_false_iff,
    List.isEmpty_eq_false_iff, List.all_eq_true, Bool.or_eq_true, beq_iff_eq] at looks
  refine ⟨looks.1.1.1, fun c member => ?_⟩
  rcases looks.2 c member with ((alnum | rfl) | rfl) | rfl
  · rw [isAlnum_iff] at alnum
    simp only [ne_eq, Bool.eq_false_iff, isSpace_iff, ← UInt8.toNat_inj]
    simp only [UInt8.reduceToNat]
    omega
  · decide
  · decide
  · decide

/-- A folded extension is still the extension it was read from. -/
theorem classifyToken_extension {token ext : Bytes}
    (cls : classifyToken zone dialect observed token = .extension ext) :
    classifyToken zone dialect observed (operatorPrefix dialect ++ ext) = .extension ext := by
  obtain ⟨body, rfl, rfl, outside, looks, -⟩ := extension_of_classifyToken zone dialect observed cls
  obtain ⟨nonempty, bytes⟩ := looksExtension_bytes looks
  cases body with
  | nil => exact absurd rfl nonempty
  | cons c body =>
    have head : c ≠ 47 := (bytes c (by simp)).1
    have head' : toLower c ≠ 47 := fun same => head ((toLower_eq_iff (by decide)).mp same)
    have folded : lower (c :: body) = toLower c :: lower body := rfl
    have outside' : lower (operatorPrefix dialect ++ toLower c :: lower body) ≠ lit "/inside" := by
      rw [← folded, lower_append, lower_lower, ← lower_append]
      exact outside
    have lowered := classifyToken_operator zone dialect observed head' (lower body) outside'
    rw [classifyToken_operator zone dialect observed head body outside] at cls
    rw [← folded] at lowered
    rw [lowered, parseCompactRangeLocal_lower, parseCompactDayAsRange_lower, lower_lower,
      isValidControl_lower, looksExtension_lower]
    split_ifs at cls ⊢
    rfl

theorem classifyToken_pin :
    classifyToken zone dialect observed (operatorPrefix dialect ++ lit "pin") = .pin := by
  have bytes : lit "pin" = 112 :: [105, 110] := rfl
  obtain ⟨range, day⟩ := compact_none_of_head zone (c := 112) (v := [105, 110]) (by decide)
  have outside : lower (operatorPrefix dialect ++ 112 :: [105, 110]) ≠ lit "/inside" := by
    cases dialect <;> decide +kernel
  rw [bytes, classifyToken_operator zone dialect observed (by decide) _ outside, range, day]
  rfl

theorem isValidControl_after (v : Bytes) :
    isValidControl zone (lit "after:" ++ v) = (parseIsoDayLocal zone (lower v)).isSome := by
  have folded : lower (lit "after:" ++ v) = lit "after:" ++ lower v := lower_append _ _
  unfold isValidControl
  rw [folded]
  dsimp only
  rw [if_neg (by rintro (h | h | h | h | h | h) <;> cases h)]
  rfl

theorem isValidControl_before (v : Bytes) :
    isValidControl zone (lit "before:" ++ v) = (parseIsoDayLocal zone (lower v)).isSome := by
  have folded : lower (lit "before:" ++ v) = lit "before:" ++ lower v := lower_append _ _
  unfold isValidControl
  rw [folded]
  dsimp only
  rw [if_neg (by rintro (h | h | h | h | h | h) <;> cases h)]
  rfl

theorem lower_isoLocalDay (t : Int) : lower (isoLocalDay zone t) = isoLocalDay zone t :=
  lower_eq_self fun _ member => (isoLocalDay_plain zone member).2.2

/-- A printed bound is a date when its day reads back, else ordinary text. -/
theorem classifyToken_bound {name : Bytes} (named : name = lit "after:" ∨ name = lit "before:")
    (t : Int) :
    classifyToken zone dialect observed (operatorPrefix dialect ++ (name ++ isoLocalDay zone t)) =
      if (dayRound zone t).isSome then .date (name ++ isoLocalDay zone t) else .text := by
  have valid : isValidControl zone (name ++ isoLocalDay zone t) = (dayRound zone t).isSome := by
    rw [dayRound]
    rcases named with rfl | rfl
    · rw [isValidControl_after, lower_isoLocalDay]
    · rw [isValidControl_before, lower_isoLocalDay]
  have folded : lower (name ++ isoLocalDay zone t) = name ++ isoLocalDay zone t := by
    rw [lower_append, lower_isoLocalDay]
    rcases named with rfl | rfl <;> rfl
  have shape : ∃ c rest, name = c :: rest ∧ isDigit c = false ∧ c ≠ 47 ∧ 58 ∈ rest := by
    rcases named with rfl | rfl
    · exact ⟨97, [102, 116, 101, 114, 58], rfl, by decide⟩
    · exact ⟨98, [101, 102, 111, 114, 101, 58], rfl, by decide⟩
  have pin : lower (name ++ isoLocalDay zone t) ≠ lit "pin" := by
    rw [folded]
    rcases named with rfl | rfl <;> intro clash <;> cases clash
  have outside : lower (operatorPrefix dialect ++ (name ++ isoLocalDay zone t)) ≠ lit "/inside" := by
    rw [lower_append, folded]
    rcases named with rfl | rfl <;> cases dialect <;> intro clash <;> cases clash
  obtain ⟨c, rest, rfl, letter, slash, colon⟩ := shape
  obtain ⟨range, day⟩ := compact_none_of_head zone (v := rest ++ isoLocalDay zone t) letter
  have plain : looksExtension (c :: rest ++ isoLocalDay zone t) = false := by
    simp [looksExtension, colon]
  rw [List.cons_append] at *
  rw [classifyToken_operator zone dialect observed slash _ outside, range, day, if_neg (by simp),
    if_neg pin, valid, plain]
  simp

theorem applyDateToken_after (modified : DateRange) (v : Bytes) :
    applyDateToken zone modified (lit "after:" ++ v) now =
      { modified with afterUnixSeconds :=
          (parseIsoDayLocal zone (lower v)).or modified.afterUnixSeconds } := by
  have folded : lower (lit "after:" ++ v) = lit "after:" ++ lower v := lower_append _ _
  have behind : (lit "after:" ++ lower v).drop 6 = lower v := rfl
  have starts : startsWith (lit "after:" ++ lower v) (lit "after:") = true := startsWith_append _ _
  have other : startsWith (lit "after:" ++ lower v) (lit "date:") ≠ true := by rintro ⟨⟩
  unfold applyDateToken
  rw [folded]
  dsimp only
  rw [if_neg (by rintro (h | h) <;> cases h), if_neg (by rintro ⟨⟩), if_neg (by rintro ⟨⟩),
    if_neg (by rintro ⟨⟩), if_neg other, if_pos starts, behind]
  cases parseIsoDayLocal zone (lower v) <;> rfl

theorem applyDateToken_before (modified : DateRange) (v : Bytes) :
    applyDateToken zone modified (lit "before:" ++ v) now =
      { modified with beforeUnixSeconds :=
          (parseIsoDayLocal zone (lower v)).or modified.beforeUnixSeconds } := by
  have folded : lower (lit "before:" ++ v) = lit "before:" ++ lower v := lower_append _ _
  have behind : (lit "before:" ++ lower v).drop 7 = lower v := rfl
  have starts : startsWith (lit "before:" ++ lower v) (lit "before:") = true := startsWith_append _ _
  have date : startsWith (lit "before:" ++ lower v) (lit "date:") ≠ true := by rintro ⟨⟩
  have after : startsWith (lit "before:" ++ lower v) (lit "after:") ≠ true := by rintro ⟨⟩
  unfold applyDateToken
  rw [folded]
  dsimp only
  rw [if_neg (by rintro (h | h) <;> cases h), if_neg (by rintro ⟨⟩), if_neg (by rintro ⟨⟩),
    if_neg (by rintro ⟨⟩), if_neg date, if_neg after, if_pos starts, behind]
  cases parseIsoDayLocal zone (lower v) <;> rfl

theorem operatorName_plain {name : Bytes} (named : name = lit "after:" ∨ name = lit "before:") :
    ∀ b ∈ operatorPrefix dialect ++ name, isSpace b = false ∧ b ≠ 59 := by
  rcases named with rfl | rfl <;> cases dialect <;> decide +kernel

theorem boundToken_plain {name : Bytes} (named : name = lit "after:" ∨ name = lit "before:") (t : Int) :
    ∀ b ∈ operatorPrefix dialect ++ name ++ isoLocalDay zone t, isSpace b = false ∧ b ≠ 59 := by
  intro b member
  rcases List.mem_append.mp member with member | member
  · exact operatorName_plain dialect named b member
  · exact ⟨(isoLocalDay_plain zone member).1, (isoLocalDay_plain zone member).2.1⟩

/-- A printed bound is absent or a single operator token. -/
theorem words_dayToken {name : Bytes} (named : name = lit "after:" ∨ name = lit "before:")
    (bound : Option Int) :
    (words (dayToken zone dialect name bound) = [] ∧ bound.bind (dayRound zone) = none) ∨
      ∃ t, bound = some t ∧ words (dayToken zone dialect name bound) =
        [operatorPrefix dialect ++ (name ++ isoLocalDay zone t)] := by
  cases bound with
  | none => exact .inl ⟨rfl, rfl⟩
  | some t =>
    cases printed : isoLocalDay zone t with
    | nil =>
      refine .inl ⟨by simp [dayToken, printed], ?_⟩
      simp [dayRound, printed, parseIsoDayLocal]
    | cons c day =>
      refine .inr ⟨t, rfl, ?_⟩
      have word : IsWord (operatorPrefix dialect ++ name ++ isoLocalDay zone t) := by
        exact ⟨by simp [printed], fun b member => (boundToken_plain zone dialect named t b member).1⟩
      rw [printed] at word
      simp only [dayToken, printed, List.isEmpty_cons, Bool.false_eq_true, if_false]
      rw [words_of_isWord word, List.append_assoc]

/-- The date a printed bound reads back as, if any. -/
def keptBound (name : Bytes) : Option Int → List Bytes
  | none => []
  | some t => if (dayRound zone t).isSome then [name ++ isoLocalDay zone t] else []

/-- Text tokens that a printed bound leaves when its day does not read back. -/
def lostBound (name : Bytes) (bound : Option Int) : List Bytes :=
  tokenTexts zone dialect observed (words (dayToken zone dialect name bound))

/-- The token of one printed bound is a date or a text. -/
theorem tokenFilter_bound {name : Bytes} (named : name = lit "after:" ∨ name = lit "before:")
    (bound : Option Int) :
    tokenDates zone dialect observed (words (dayToken zone dialect name bound)) =
        keptBound zone name bound ∧
      tokenExtensions zone dialect observed (words (dayToken zone dialect name bound)) = [] ∧
      tokensPin zone dialect observed (words (dayToken zone dialect name bound)) = false ∧
      tokensInside zone dialect observed (words (dayToken zone dialect name bound)) = false := by
  rcases words_dayToken zone dialect named bound with ⟨none, lost⟩ | ⟨t, rfl, single⟩
  · rw [none]
    refine ⟨?_, rfl, rfl, rfl⟩
    cases bound with
    | none => rfl
    | some t =>
      rw [Option.bind_some] at lost
      simp [keptBound, lost]
  · have cls := classifyToken_bound zone dialect observed named t
    rw [single]
    cases round : (dayRound zone t).isSome with
    | true =>
      rw [round, if_pos rfl] at cls
      simp [cls, keptBound, round, TokenClass.dateBody?, TokenClass.extension?]
    | false =>
      rw [round, if_neg (by simp)] at cls
      simp [cls, keptBound, round, TokenClass.dateBody?, TokenClass.extension?]

theorem dateRange_bounds (modified : DateRange) :
    dateRange zone now (dateRange zone now {} (keptBound zone (lit "after:") modified.afterUnixSeconds))
        (keptBound zone (lit "before:") modified.beforeUnixSeconds) =
      ⟨modified.afterUnixSeconds.bind (dayRound zone),
        modified.beforeUnixSeconds.bind (dayRound zone)⟩ := by
  have rounded : ∀ t, parseIsoDayLocal zone (lower (isoLocalDay zone t)) = dayRound zone t :=
    fun t => by rw [lower_isoLocalDay, dayRound]
  have after : dateRange zone now {} (keptBound zone (lit "after:") modified.afterUnixSeconds) =
      ⟨modified.afterUnixSeconds.bind (dayRound zone), none⟩ := by
    cases modified.afterUnixSeconds with
    | none => rfl
    | some t =>
      cases round : dayRound zone t <;>
        simp [dateRange, keptBound, round, applyDateToken_after, rounded]
  rw [after]
  cases modified.beforeUnixSeconds with
  | none => rfl
  | some t =>
    cases round : dayRound zone t <;>
      simp [dateRange, keptBound, round, applyDateToken_before, rounded]

end Operators

section Reparse
variable (zone : Zone) (dialect : PlatformDialect) (now : Int) (observed : List Bytes)

/-- A filter whose text and extensions print as tokens of their own kind. -/
structure Readable (filter : SearchFilter) (texts : List Bytes) : Prop where
  text : filter.text = joinWords texts
  texts_word : ∀ t ∈ texts, IsWord t
  texts_free : ∀ t ∈ texts, NoPair 47 59 t
  texts_plain : ∀ t ∈ texts, classifyToken zone dialect observed t = .text
  extensions_plain : ∀ ext ∈ filter.extensions,
    classifyToken zone dialect observed (operatorPrefix dialect ++ ext) = .extension ext
  extensions_nodup : filter.extensions.Nodup

theorem readable_tokenFilter {tokens : List Bytes} (word : ∀ t ∈ tokens, IsWord t)
    (free : ∀ t ∈ tokens, NoPair 47 59 t) :
    Readable zone dialect observed (tokenFilter zone dialect now observed tokens)
      (tokenTexts zone dialect observed tokens) where
  text := rfl
  texts_word t member := word t (List.mem_of_mem_filter member)
  texts_free t member := free t (List.mem_of_mem_filter member)
  texts_plain t member := by simpa using List.of_mem_filter member
  extensions_plain ext member := by
    have read : ext ∈ tokenExtensions zone dialect observed tokens := by
      simpa using mem_foldl_addExtension.mp member
    obtain ⟨token, -, found⟩ := List.mem_filterMap.mp read
    have cls : classifyToken zone dialect observed token = .extension ext := by
      cases cls : classifyToken zone dialect observed token <;>
        simp only [cls, TokenClass.extension?, reduceCtorEq, Option.some.injEq] at found
      rw [found]
    exact classifyToken_extension zone dialect observed cls
  extensions_nodup := nodup_foldl_addExtension List.nodup_nil

theorem readable_parseSearchQuery (query : Bytes) :
    Readable zone dialect observed (parseSearchQuery zone dialect now observed query)
      (tokenTexts zone dialect observed (queryTokens query)) := by
  rw [parseSearchQuery_eq]
  have word : ∀ t ∈ queryTokens query, IsWord t := fun _ => isWord_of_mem_queryTokens
  have free : ∀ t ∈ queryTokens query, NoPair 47 59 t := fun _ => noPair_of_mem_queryTokens
  obtain ⟨text, word, free, plain, exts, nodup⟩ :=
    readable_tokenFilter zone dialect now observed word free
  exact ⟨text, word, free, plain, exts, nodup⟩

variable {zone dialect observed} {filter : SearchFilter} {texts : List Bytes}

theorem dayToken_free {name : Bytes} (named : name = lit "after:" ∨ name = lit "before:")
    (bound : Option Int) : NoPair 47 59 (dayToken zone dialect name bound) := by
  cases bound with
  | none => exact noPair_nil
  | some t =>
    simp only [dayToken]
    split
    · exact noPair_nil
    · exact noPair_of_notMem fun member => (boundToken_plain zone dialect named t 59 member).2 rfl

namespace Readable

theorem extension_plain (readable : Readable zone dialect observed filter texts) {ext : Bytes}
    (member : ext ∈ filter.extensions) :
    IsWord (operatorPrefix dialect ++ ext) ∧ 59 ∉ operatorPrefix dialect ++ ext := by
  obtain ⟨body, same, -, -, looks, -⟩ :=
    extension_of_classifyToken zone dialect observed (readable.extensions_plain ext member)
  rw [← looksExtension_lower, ← same] at looks
  obtain ⟨nonempty, bytes⟩ := looksExtension_bytes looks
  have operator : ∀ b ∈ operatorPrefix dialect, isSpace b = false ∧ b ≠ 59 := by
    cases dialect <;> decide +kernel
  have all : ∀ b ∈ operatorPrefix dialect ++ ext, isSpace b = false ∧ b ≠ 59 := by
    intro b inside
    rcases List.mem_append.mp inside with inside | inside
    · exact operator b inside
    · exact (bytes b inside).2
  exact ⟨⟨by simp [nonempty], fun b inside => (all b inside).1⟩, fun inside => (all 59 inside).2 rfl⟩

/-- A compiled query has one stage. -/
theorem compile_free (readable : Readable zone dialect observed filter texts) :
    NoPair 47 59 (compileRuntimeQuery zone dialect filter) := by
  refine noPair_joinWords (fun piece member => ?_) (by decide) (by decide)
  have inside := List.mem_of_mem_filter member
  simp only [List.mem_append, List.mem_cons, List.mem_map, List.not_mem_nil, or_false] at inside
  rcases inside with (rfl | ⟨ext, extension, rfl⟩) | rfl | rfl | rfl
  · rw [readable.text]
    exact noPair_joinWords readable.texts_free (by decide) (by decide)
  · exact noPair_of_notMem (readable.extension_plain extension).2
  · split
    · cases dialect <;> decide
    · exact noPair_nil
  · exact dayToken_free (.inl rfl) _
  · exact dayToken_free (.inr rfl) _

theorem flatMap_words_filter (pieces : List Bytes) :
    (pieces.filter (!·.isEmpty)).flatMap words = pieces.flatMap words := by
  induction pieces with
  | nil => rfl
  | cons piece pieces ih => cases piece <;> simp [ih]

theorem compile_words (readable : Readable zone dialect observed filter texts) :
    words (compileRuntimeQuery zone dialect filter) =
      texts ++ filter.extensions.map (operatorPrefix dialect ++ ·) ++
        (if filter.pinnedOnly then [operatorPrefix dialect ++ lit "pin"] else []) ++
        words (dayToken zone dialect (lit "after:") filter.modified.afterUnixSeconds) ++
        words (dayToken zone dialect (lit "before:") filter.modified.beforeUnixSeconds) := by
  have text : words filter.text = texts := by
    rw [readable.text, words_joinWords_of_isWord readable.texts_word]
  have extensions : (filter.extensions.map (operatorPrefix dialect ++ ·)).flatMap words =
      filter.extensions.map (operatorPrefix dialect ++ ·) := by
    refine flatMap_words_of_isWord fun t member => ?_
    obtain ⟨ext, inside, rfl⟩ := List.mem_map.mp member
    exact (readable.extension_plain inside).1
  have pin : words (if filter.pinnedOnly then operatorPrefix dialect ++ lit "pin" else []) =
      if filter.pinnedOnly then [operatorPrefix dialect ++ lit "pin"] else [] := by
    split
    · cases dialect <;> decide
    · rfl
  simp only [compileRuntimeQuery, words_joinWords, flatMap_words_filter, List.flatMap_append, extensions,
    List.flatMap_cons, List.flatMap_nil, text, pin, List.append_nil, List.append_assoc]

end Readable

/-- The tokens of a list that all read as one kind. -/
theorem tokenFilter_texts {tokens : List Bytes}
    (plain : ∀ t ∈ tokens, classifyToken zone dialect observed t = .text) :
    tokenTexts zone dialect observed tokens = tokens ∧
      tokenDates zone dialect observed tokens = [] ∧
      tokenExtensions zone dialect observed tokens = [] ∧
      tokensPin zone dialect observed tokens = false ∧
      tokensInside zone dialect observed tokens = false := by
  induction tokens with
  | nil => exact ⟨rfl, rfl, rfl, rfl, rfl⟩
  | cons t tokens ih =>
    have head := plain t (by simp)
    obtain ⟨texts, dates, exts, pin, inside⟩ := ih fun u member => plain u (by simp [member])
    simp [head, texts, dates, exts, pin, inside, TokenClass.dateBody?, TokenClass.extension?]

theorem tokenFilter_extensions {exts : List Bytes} (plain : ∀ ext ∈ exts,
      classifyToken zone dialect observed (operatorPrefix dialect ++ ext) = .extension ext) :
    tokenTexts zone dialect observed (exts.map (operatorPrefix dialect ++ ·)) = [] ∧
      tokenDates zone dialect observed (exts.map (operatorPrefix dialect ++ ·)) = [] ∧
      tokenExtensions zone dialect observed (exts.map (operatorPrefix dialect ++ ·)) = exts ∧
      tokensPin zone dialect observed (exts.map (operatorPrefix dialect ++ ·)) = false ∧
      tokensInside zone dialect observed (exts.map (operatorPrefix dialect ++ ·)) = false := by
  induction exts with
  | nil => exact ⟨rfl, rfl, rfl, rfl, rfl⟩
  | cons ext exts ih =>
    have head := plain ext (by simp)
    obtain ⟨texts, dates, extensions, pin, inside⟩ := ih fun u member => plain u (by simp [member])
    simp [head, texts, dates, extensions, pin, inside, TokenClass.dateBody?, TokenClass.extension?]

/-- What the runtime reads from a compiled filter. -/
theorem parse_compile (readable : Readable zone dialect observed filter texts) :
    parseSearchQuery zone dialect now observed (compileRuntimeQuery zone dialect filter) = {
      text := joinWords (texts ++
        (lostBound zone dialect observed (lit "after:") filter.modified.afterUnixSeconds ++
          lostBound zone dialect observed (lit "before:") filter.modified.beforeUnixSeconds))
      extensions := filter.extensions
      detailTerms := []
      modified := ⟨filter.modified.afterUnixSeconds.bind (dayRound zone),
        filter.modified.beforeUnixSeconds.bind (dayRound zone)⟩
      pinnedOnly := filter.pinnedOnly
      scope := .file } := by
  obtain ⟨texts₁, dates₁, exts₁, pin₁, inside₁⟩ := tokenFilter_texts readable.texts_plain
  obtain ⟨texts₂, dates₂, exts₂, pin₂, inside₂⟩ := tokenFilter_extensions readable.extensions_plain
  obtain ⟨dates₃, exts₃, pin₃, inside₃⟩ :=
    tokenFilter_bound zone dialect observed (.inl rfl) filter.modified.afterUnixSeconds
  obtain ⟨dates₄, exts₄, pin₄, inside₄⟩ :=
    tokenFilter_bound zone dialect observed (.inr rfl) filter.modified.beforeUnixSeconds
  have bounds := dateRange_bounds zone now filter.modified
  have distinct := foldl_addExtension_self readable.extensions_nodup
  have pinToken := classifyToken_pin zone dialect observed
  rw [parseSearchQuery_of_noPair zone dialect now observed readable.compile_free,
    readable.compile_words]
  cases filter.pinnedOnly <;>
    simp [tokenFilter, lostBound, dateRange_append, texts₁, dates₁, exts₁, pin₁, inside₁, texts₂,
      dates₂, exts₂, pin₂, inside₂, dates₃, exts₃, pin₃, inside₃, dates₄, exts₄, pin₄, inside₄, bounds,
      distinct, pinToken, TokenClass.dateBody?, TokenClass.extension?]

end Reparse
end Such.SearchDialect
