import Such.Ui.SearchDialect

/-! A parsed query field by field. The parser's state after any token sequence is
determined by what each token is taken for, independently of the state it met. -/
namespace Such.SearchDialect
open ByteText CivilTime

/-- All stages of a query; a query without `/;` is its own single stage. -/
def queryStages (query : Bytes) : List Bytes :=
  (splitDetail query).primary :: (splitDetail query).refinements

theorem queryStages_eq (query : Bytes) :
    queryStages query = (splitPair 47 59 query).map trim := by
  simp only [queryStages, splitDetail]
  cases pieces : (splitPair 47 59 query).map trim with
  | nil => exact absurd (List.map_eq_nil_iff.mp pieces) (splitPair_ne_nil query)
  | cons primary refinements => rfl

def TokenClass.dateBody? : TokenClass → Option Bytes
  | .date body => some body
  | _ => none

def TokenClass.extension? : TokenClass → Option Bytes
  | .extension ext => some ext
  | _ => none

def addExtension (exts : List Bytes) (ext : Bytes) : List Bytes :=
  if exts.contains ext then exts else exts ++ [ext]

section Reading
variable (zone : Zone) (dialect : PlatformDialect) (now : Int) (observed : List Bytes)

/-- All whitespace-separated tokens of every Drill Search stage, in order. -/
def queryTokens (query : Bytes) : List Bytes := (splitPair 47 59 query).flatMap words

def tokenTexts (tokens : List Bytes) : List Bytes :=
  tokens.filter fun token => classifyToken zone dialect observed token = .text

def tokenDates (tokens : List Bytes) : List Bytes :=
  tokens.filterMap fun token => (classifyToken zone dialect observed token).dateBody?

def tokenExtensions (tokens : List Bytes) : List Bytes :=
  tokens.filterMap fun token => (classifyToken zone dialect observed token).extension?

def tokensPin (tokens : List Bytes) : Bool :=
  tokens.any fun token => classifyToken zone dialect observed token = .pin

def tokensInside (tokens : List Bytes) : Bool :=
  tokens.any fun token => classifyToken zone dialect observed token = .inside

def dateRange (start : DateRange) (bodies : List Bytes) : DateRange :=
  bodies.foldl (fun modified body => applyDateToken zone modified body now) start

theorem dateRange_append (start : DateRange) (bodies more : List Bytes) :
    dateRange zone now start (bodies ++ more) =
      dateRange zone now (dateRange zone now start bodies) more :=
  List.foldl_append

section Lists
variable (token : Bytes) (tokens more : List Bytes)

@[simp] theorem tokenTexts_nil : tokenTexts zone dialect observed [] = [] := rfl
@[simp] theorem tokenDates_nil : tokenDates zone dialect observed [] = [] := rfl
@[simp] theorem tokenExtensions_nil : tokenExtensions zone dialect observed [] = [] := rfl
@[simp] theorem tokensPin_nil : tokensPin zone dialect observed [] = false := rfl
@[simp] theorem tokensInside_nil : tokensInside zone dialect observed [] = false := rfl

@[simp] theorem tokenTexts_cons : tokenTexts zone dialect observed (token :: tokens) =
    if classifyToken zone dialect observed token = .text then
      token :: tokenTexts zone dialect observed tokens
    else tokenTexts zone dialect observed tokens := by
  simp [tokenTexts, List.filter_cons]

@[simp] theorem tokenDates_cons : tokenDates zone dialect observed (token :: tokens) =
    (classifyToken zone dialect observed token).dateBody?.toList ++
      tokenDates zone dialect observed tokens := by
  cases cls : (classifyToken zone dialect observed token).dateBody? <;> simp [tokenDates, cls]

@[simp] theorem tokenExtensions_cons : tokenExtensions zone dialect observed (token :: tokens) =
    (classifyToken zone dialect observed token).extension?.toList ++
      tokenExtensions zone dialect observed tokens := by
  cases cls : (classifyToken zone dialect observed token).extension? <;> simp [tokenExtensions, cls]

@[simp] theorem tokensPin_cons : tokensPin zone dialect observed (token :: tokens) =
    (decide (classifyToken zone dialect observed token = .pin) ||
      tokensPin zone dialect observed tokens) := rfl

@[simp] theorem tokensInside_cons : tokensInside zone dialect observed (token :: tokens) =
    (decide (classifyToken zone dialect observed token = .inside) ||
      tokensInside zone dialect observed tokens) := rfl

@[simp] theorem tokenTexts_append : tokenTexts zone dialect observed (tokens ++ more) =
    tokenTexts zone dialect observed tokens ++ tokenTexts zone dialect observed more := by
  simp [tokenTexts]

@[simp] theorem tokenDates_append : tokenDates zone dialect observed (tokens ++ more) =
    tokenDates zone dialect observed tokens ++ tokenDates zone dialect observed more := by
  simp [tokenDates]

@[simp] theorem tokenExtensions_append : tokenExtensions zone dialect observed (tokens ++ more) =
    tokenExtensions zone dialect observed tokens ++ tokenExtensions zone dialect observed more := by
  simp [tokenExtensions]

@[simp] theorem tokensPin_append : tokensPin zone dialect observed (tokens ++ more) =
    (tokensPin zone dialect observed tokens || tokensPin zone dialect observed more) := by
  simp [tokensPin]

@[simp] theorem tokensInside_append : tokensInside zone dialect observed (tokens ++ more) =
    (tokensInside zone dialect observed tokens || tokensInside zone dialect observed more) := by
  simp [tokensInside]

end Lists

/-- The state after a token run, one field at a time. -/
theorem foldl_applyToken (tokens : List Bytes) (state : ParseState) :
    tokens.foldl (applyToken zone dialect now observed) state = {
      filter := { state.filter with
        extensions := (tokenExtensions zone dialect observed tokens).foldl addExtension
          state.filter.extensions
        modified := dateRange zone now state.filter.modified (tokenDates zone dialect observed tokens)
        pinnedOnly := state.filter.pinnedOnly || tokensPin zone dialect observed tokens
        scope := if tokensInside zone dialect observed tokens then .content else state.filter.scope }
      textParts := state.textParts ++ tokenTexts zone dialect observed tokens } := by
  induction tokens generalizing state with
  | nil => simp [dateRange]
  | cons token tokens ih =>
    rw [List.foldl_cons, ih]
    cases cls : classifyToken zone dialect observed token with
    | inside => simp [applyToken, cls, TokenClass.dateBody?, TokenClass.extension?]
    | date body => simp [applyToken, cls, TokenClass.dateBody?, TokenClass.extension?, dateRange]
    | pin => simp [applyToken, cls, TokenClass.dateBody?, TokenClass.extension?]
    | extension ext =>
      have step : (applyToken zone dialect now observed state token) = { state with filter :=
          { state.filter with extensions := addExtension state.filter.extensions ext } } := by
        simp only [applyToken, cls, addExtension]
        split <;> rfl
      simp [step, cls, TokenClass.dateBody?, TokenClass.extension?]
    | text => simp [applyToken, cls, TokenClass.dateBody?, TokenClass.extension?]

/-- The filter read from a token sequence. -/
def tokenFilter (tokens : List Bytes) : SearchFilter where
  text := joinWords (tokenTexts zone dialect observed tokens)
  extensions := (tokenExtensions zone dialect observed tokens).foldl addExtension []
  modified := dateRange zone now {} (tokenDates zone dialect observed tokens)
  pinnedOnly := tokensPin zone dialect observed tokens
  scope := if tokensInside zone dialect observed tokens then .content else .file

theorem parseTokens_eq (query : Bytes) :
    parseTokens zone dialect now observed query =
      tokenFilter zone dialect now observed (words query) := by
  simp [parseTokens, foldl_applyToken, tokenFilter]

theorem words_normalizedQuery (detail : DetailSearch) :
    words (normalizedQuery detail) = words detail.primary ++ detail.refinements.flatMap words := by
  obtain ⟨primary, refinements, active⟩ := detail
  simp only [normalizedQuery]
  induction refinements generalizing primary with
  | nil => simp
  | cons refinement refinements ih =>
    rw [List.foldl_cons, ih, List.flatMap_cons, ← List.append_assoc]
    congr 1
    split
    · exact words_append_space primary refinement isSpace_blank
    · rename_i empty
      cases primary with
      | nil => simp
      | cons b primary =>
        have none : refinement = [] := by simpa using empty
        simp [none]

theorem flatMap_words_trim (pieces : List Bytes) :
    (pieces.map trim).flatMap words = pieces.flatMap words := by
  simp [List.flatMap_map, words_trim]

theorem splitDetail_tokens (query : Bytes) :
    words (splitDetail query).primary ++ (splitDetail query).refinements.flatMap words =
      queryTokens query := by
  rw [queryTokens, ← flatMap_words_trim (splitPair 47 59 query), splitDetail]
  generalize (splitPair 47 59 query).map trim = pieces
  cases pieces with
  | nil => simp
  | cons primary refinements => simp

theorem splitDetail_active (query : Bytes) :
    (splitDetail query).active = !(splitDetail query).refinements.isEmpty := by
  rw [splitDetail]
  cases (splitPair 47 59 query).map trim <;> rfl

theorem queryTokens_of_inactive {query : Bytes} (flat : (splitDetail query).active = false) :
    queryTokens query = words query := by
  cases pieces : splitPair 47 59 query with
  | nil => exact absurd pieces (splitPair_ne_nil query)
  | cons first rest =>
    have single : rest = [] := by simpa [splitDetail, pieces] using flat
    subst single
    simp [queryTokens, pieces, eq_of_splitPair_singleton pieces]

/-- The texts of the refinement stages, without the empty ones. -/
def stageTerms (query : Bytes) : List Bytes :=
  ((splitDetail query).refinements.map fun refinement =>
    (tokenFilter zone dialect now observed (words refinement)).text).filter (!·.isEmpty)

/-- Stage marks only matter for the detail terms; every other field is read from
the tokens of all stages together. -/
theorem parseSearchQuery_eq (query : Bytes) :
    parseSearchQuery zone dialect now observed query =
      { tokenFilter zone dialect now observed (queryTokens query) with
        detailTerms := stageTerms zone dialect now observed query } := by
  cases active : (splitDetail query).active with
  | true =>
    simp only [parseSearchQuery, active, if_true, parseTokens_eq, words_normalizedQuery,
      splitDetail_tokens, stageTerms]
  | false =>
    have none : (splitDetail query).refinements = [] := by
      simpa [splitDetail_active] using active
    simp [parseSearchQuery, active, parseTokens_eq, queryTokens_of_inactive active, stageTerms, none,
      tokenFilter]

theorem queryTokens_of_noPair {query : Bytes} (free : NoPair 47 59 query) :
    queryTokens query = words query := by
  simp [queryTokens, splitPair_of_noPair free]

theorem stageTerms_of_noPair {query : Bytes} (free : NoPair 47 59 query) :
    stageTerms zone dialect now observed query = [] := by
  simp [stageTerms, splitDetail, splitPair_of_noPair free]

theorem parseSearchQuery_of_noPair {query : Bytes} (free : NoPair 47 59 query) :
    parseSearchQuery zone dialect now observed query =
      tokenFilter zone dialect now observed (words query) := by
  rw [parseSearchQuery_eq, queryTokens_of_noPair free, stageTerms_of_noPair zone dialect now observed free]
  rfl

/-- A query without stages parses like its trimmed primary. -/
theorem parseSearchQuery_primary {query : Bytes} (flat : (splitDetail query).active = false) :
    parseSearchQuery zone dialect now observed (splitDetail query).primary =
      parseSearchQuery zone dialect now observed query := by
  cases pieces : splitPair 47 59 query with
  | nil => exact absurd pieces (splitPair_ne_nil query)
  | cons first rest =>
    have single : rest = [] := by simpa [splitDetail, pieces] using flat
    subst single
    have free := noPair_of_splitPair_singleton pieces
    have primary : (splitDetail query).primary = trim query := by
      simp [splitDetail, pieces, eq_of_splitPair_singleton pieces]
    rw [primary, parseSearchQuery_of_noPair zone dialect now observed free,
      parseSearchQuery_of_noPair zone dialect now observed (free.mono (infix_trim query)), words_trim]

theorem queryTokens_append_blank (v w : Bytes) :
    queryTokens (v ++ 32 :: w) = queryTokens v ++ queryTokens w :=
  flatMap_words_splitPair_append isSpace_blank (by decide) (by decide) v w

theorem isWord_of_mem_queryTokens {query token : Bytes} (member : token ∈ queryTokens query) :
    IsWord token := by
  obtain ⟨piece, -, inside⟩ := List.mem_flatMap.mp member
  exact words_isWord inside

theorem noPair_of_mem_queryTokens {query token : Bytes} (member : token ∈ queryTokens query) :
    NoPair 47 59 token := by
  obtain ⟨piece, split, inside⟩ := List.mem_flatMap.mp member
  exact (splitPair_noPair split).mono (infix_words inside)

end Reading

section Extensions

theorem mem_foldl_addExtension {exts start : List Bytes} {ext : Bytes} :
    ext ∈ exts.foldl addExtension start ↔ ext ∈ start ∨ ext ∈ exts := by
  induction exts generalizing start with
  | nil => simp
  | cons first exts ih =>
    have head : ext ∈ addExtension start first ↔ ext ∈ start ∨ ext = first := by
      simp only [addExtension]
      split
      · rename_i known
        constructor
        · exact .inl
        · rintro (old | rfl)
          · exact old
          · simpa using known
      · simp
    rw [List.foldl_cons, ih, head, List.mem_cons, or_assoc]

theorem nodup_foldl_addExtension {exts start : List Bytes} (distinct : start.Nodup) :
    (exts.foldl addExtension start).Nodup := by
  induction exts generalizing start with
  | nil => exact distinct
  | cons first exts ih =>
    refine ih ?_
    simp only [addExtension]
    split
    · exact distinct
    · rename_i fresh
      have new : first ∉ start := by simpa using fresh
      rw [List.nodup_append]
      refine ⟨distinct, by simp, ?_⟩
      intro ext member other once same
      rw [List.mem_singleton] at once
      subst once same
      exact new member

theorem foldl_addExtension_of_nodup {exts start : List Bytes} (distinct : (start ++ exts).Nodup) :
    exts.foldl addExtension start = start ++ exts := by
  induction exts generalizing start with
  | nil => simp
  | cons first exts ih =>
    have fresh : first ∉ start := by
      intro member
      exact (List.nodup_append.mp distinct).2.2 first member first (by simp) rfl
    have step : addExtension start first = start ++ [first] := by simp [addExtension, fresh]
    rw [List.foldl_cons, step, ih (by simpa using distinct)]
    simp

/-- Extensions without repetition are kept as they stand. -/
theorem foldl_addExtension_self {exts : List Bytes} (distinct : exts.Nodup) :
    exts.foldl addExtension [] = exts :=
  foldl_addExtension_of_nodup distinct

end Extensions

end Such.SearchDialect
