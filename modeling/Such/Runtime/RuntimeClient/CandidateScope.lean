import Such.Runtime.RuntimeClient.ContentSearch

/-! Which request, if any, a search puts to the content engine. A null or empty candidate
list would open the whole index to it. -/
namespace Such.RuntimeClient
open ByteText CivilTime SearchDialect SearchableFiles HangulQueryNfc

abbrev Engine := ContentSearchRequest → Except Bytes (List AbiContentResult)

/-- How a search ends: with an answer of its own, or with what the content engine answers
to one request. -/
inductive Ending where
  | answers (result : Except Bytes (List ResultItem))
  | asks (request : ContentSearchRequest)

/-- What becomes of the engine's answer. -/
def presentContent (maxResults : Nat) (answer : Except Bytes (List AbiContentResult)) :
    Except Bytes (List ResultItem) :=
  match answer with
  | .error abi => .error (callError abi (lit "Such private runtime content search failed"))
  | .ok raw =>
    let out := (raw.map appendContentResult).filter fun item =>
      searchableTextFilename item.filename item.extension
    .ok (if maxResults ≠ 0 ∧ maxResults < out.length then out.take maxResults else out)

def Ending.result (engine : Engine) (maxResults : Nat) : Ending → Except Bytes (List ResultItem)
  | .answers result => result
  | .asks request => presentContent maxResults (engine request)

/-- The rows and the error text a caller receives. -/
def received : Except Bytes (List ResultItem) → List ResultItem × Bytes
  | .error e => ([], e)
  | .ok items => (items, [])

def Runtime.withEngine (runtime : Runtime) (engine : Engine) : Runtime :=
  { runtime with searchContent := some engine }

def Impl.withEngine (impl : Impl) (engine : Engine) : Impl :=
  { impl with runtime := impl.runtime.map (·.withEngine engine) }

section Endings
variable (zone : Zone) (dialect : PlatformDialect) (now : Int) (observed : List Bytes)

/-- The content pass up to its call of an exported engine; without one it has returned. -/
def contentEnding (readOnly : Bool) (runtime : Runtime) (filter : SearchFilter)
    (restriction : Option (List UInt64)) : Ending :=
  let request candidates : ContentSearchRequest :=
    ⟨cstr (composeHangulQueryNfc filter.text), candidates, 0, 0⟩
  if readOnly then
    .answers (.error (lit "Document contents are still indexing. Filename search is available."))
  else if filter.text.isEmpty then .answers (.ok [])
  else
    match restriction with
    | some ids => .asks (request (some ids))
    | none =>
      let candidateFilter := { filter with scope := .file, text := [], detailTerms := [] }
      if hasFileConstraints candidateFilter then
        let candidateQuery := compileRuntimeQuery zone dialect candidateFilter
        match searchFiles zone dialect now observed runtime candidateQuery 0 with
        | .error e => .answers (.error e)
        | .ok candidates =>
          let ids := candidateIds candidates
          if ids.isEmpty then .answers (.ok []) else .asks (request (some ids))
      else .asks (request none)

/-- The search of a loaded client up to its call of the engine. -/
def loadedEnding (readOnly : Bool) (runtime : Runtime) (query : Bytes) (maxResults : Nat) : Ending :=
  let detail := splitDetail query
  let stages := detail.primary :: detail.refinements
  let stage := contentStage zone dialect now observed stages
  if detail.active ∧ stage ≠ stages.length then
    if stage + 1 ≠ stages.length then
      .answers (.error (lit "/inside must be the final Drill Search stage"))
    else
      let contentFilter := parseSearchQuery zone dialect now observed (stages.getD stage [])
      if 0 < stage then
        match searchFiles zone dialect now observed runtime (joinStages (stages.take stage)) 0 with
        | .error e => .answers (.error e)
        | .ok candidates =>
          let ids := candidateIds candidates
          if ids.isEmpty then .answers (.ok [])
          else contentEnding zone dialect now observed readOnly runtime contentFilter (some ids)
      else contentEnding zone dialect now observed readOnly runtime contentFilter none
  else
    let filter := parseSearchQuery zone dialect now observed query
    if filter.scope = .content then
      contentEnding zone dialect now observed readOnly runtime filter none
    else .answers (searchFiles zone dialect now observed runtime query maxResults)

def ending (impl : Impl) (query : Bytes) (maxResults : Nat) : Ending :=
  match impl.ready, impl.runtime with
  | true, some runtime => loadedEnding zone dialect now (observedExtensions impl) impl.readOnly
      runtime query maxResults
  | _, _ => .answers (.error (runtimeError impl))

variable {zone dialect now observed}

theorem searchContent_eq_result (readOnly : Bool) (runtime : Runtime) (engine : Engine)
    (filter : SearchFilter) (restriction : Option (List UInt64)) (maxResults : Nat) :
    searchContent zone dialect now observed readOnly (runtime.withEngine engine) filter restriction
        maxResults =
      (contentEnding zone dialect now observed readOnly runtime filter restriction).result engine
        maxResults := by
  have files : ∀ query, searchFiles zone dialect now observed (runtime.withEngine engine) query 0 =
      searchFiles zone dialect now observed runtime query 0 := fun query => rfl
  simp only [searchContent, contentEnding]
  cases readOnly with
  | true => rfl
  | false =>
    simp only [Bool.false_eq_true, if_false, files]
    simp only [Runtime.withEngine]
    split
    · rfl
    · cases restriction with
      | some ids => rfl
      | none =>
        dsimp only
        split
        · generalize searchFiles zone dialect now observed runtime _ 0 = found
          cases found with
          | error e => rfl
          | ok candidates =>
            dsimp only
            split <;> rfl
        · rfl

theorem searchLoaded_eq_result (readOnly : Bool) (runtime : Runtime) (engine : Engine)
    (query : Bytes) (maxResults : Nat) :
    searchLoaded zone dialect now observed readOnly (runtime.withEngine engine) query maxResults =
      (loadedEnding zone dialect now observed readOnly runtime query maxResults).result engine
        maxResults := by
  have files : ∀ query limit,
      searchFiles zone dialect now observed (runtime.withEngine engine) query limit =
        searchFiles zone dialect now observed runtime query limit := fun query limit => rfl
  simp only [searchLoaded, loadedEnding]
  simp only [files, searchContent_eq_result]
  split
  · split
    · rfl
    · split
      · generalize searchFiles zone dialect now observed runtime _ 0 = found
        cases found with
        | error e => rfl
        | ok candidates =>
          dsimp only
          split <;> rfl
      · rfl
  · split <;> rfl

/-- Whatever the engine is, it sees at most the ending's request. -/
theorem search_eq_result (impl : Impl) (engine : Engine) (query : Bytes) (maxResults : Nat) :
    ((search zone dialect now (impl.withEngine engine) query maxResults).items,
      (search zone dialect now (impl.withEngine engine) query maxResults).error) =
      received ((ending zone dialect now impl query maxResults).result engine maxResults) := by
  obtain ⟨readOnly, ready, error, runtime⟩ := impl
  cases ready with
  | false => cases runtime <;> rfl
  | true =>
    cases runtime with
    | none => rfl
    | some runtime =>
      simp only [search, ending, Impl.withEngine]
      simp only [Option.map_some]
      have observed : observedExtensions ⟨readOnly, true, error, some (runtime.withEngine engine)⟩ =
          observedExtensions ⟨readOnly, true, error, some runtime⟩ := rfl
      rw [observed, searchLoaded_eq_result]
      generalize Ending.result engine maxResults _ = result
      cases result <;> rfl

variable (zone dialect now observed) in
/-- Further stages, or constraints of a direct query. -/
def Restricted (query : Bytes) : Prop :=
  (splitDetail query).active = true ∨
    hasFileConstraints (parseSearchQuery zone dialect now observed query) = true

variable (zone dialect now observed) in
instance (query : Bytes) : Decidable (Restricted zone dialect now observed query) :=
  inferInstanceAs (Decidable (_ ∨ _))

variable (zone dialect now observed) in
/-- The query of the preceding stages, or of a direct query's constraints alone. -/
def candidateQuery (query : Bytes) : Bytes :=
  if (splitDetail query).active then joinStages (queryStages query).dropLast
  else
    compileRuntimeQuery zone dialect { parseSearchQuery zone dialect now observed query with
      scope := .file, text := [], detailTerms := [] }

/-- The query has content scope exactly when one of its stages has. -/
theorem scope_content_iff (query : Bytes) :
    (parseSearchQuery zone dialect now observed query).scope = .content ↔
      ∃ stage ∈ queryStages query,
        (parseSearchQuery zone dialect now observed stage).scope = .content := by
  have flagged : ∀ flag : Bool,
      (if flag then SearchScope.content else SearchScope.file) = .content ↔ flag = true := by decide
  rw [queryStages_eq, parseSearchQuery_eq]
  dsimp only [tokenFilter]
  rw [flagged]
  simp only [queryTokens, tokensInside]
  simp only [List.any_flatMap, List.any_eq_true (l := splitPair 47 59 query)]
  constructor
  · rintro ⟨piece, member, inside⟩
    have free := (splitPair_noPair member).mono (infix_trim piece)
    refine ⟨trim piece, List.mem_map_of_mem member, ?_⟩
    rw [parseSearchQuery_of_noPair zone dialect now observed free, words_trim]
    exact (flagged _).mpr inside
  · rintro ⟨stage, trimmed, inside⟩
    obtain ⟨piece, member, rfl⟩ := List.mem_map.mp trimmed
    have free := (splitPair_noPair member).mono (infix_trim piece)
    rw [parseSearchQuery_of_noPair zone dialect now observed free, words_trim] at inside
    exact ⟨piece, member, (flagged _).mp inside⟩

/-- A request with a given candidate list carries it on. -/
theorem contentEnding_restricted {readOnly : Bool} {runtime : Runtime} {filter : SearchFilter}
    {ids : List UInt64} {request : ContentSearchRequest}
    (asks : contentEnding zone dialect now observed readOnly runtime filter (some ids) =
      .asks request) : request.candidates = some ids := by
  unfold contentEnding at asks
  dsimp only at asks
  split at asks
  · contradiction
  · split at asks
    · contradiction
    · cases asks
      rfl

theorem contentEnding_constrained {readOnly : Bool} {runtime : Runtime} {filter : SearchFilter}
    {request : ContentSearchRequest} (constrained : hasFileConstraints filter = true)
    (asks : contentEnding zone dialect now observed readOnly runtime filter none = .asks request) :
    ∃ candidates, searchFiles zone dialect now observed runtime (compileRuntimeQuery zone dialect
        { filter with scope := .file, text := [], detailTerms := [] }) 0 = .ok candidates ∧
      candidateIds candidates ≠ [] ∧ request.candidates = some (candidateIds candidates) := by
  have same : hasFileConstraints { filter with scope := .file, text := [], detailTerms := [] } = true :=
    constrained
  simp only [contentEnding] at asks
  simp only [same, if_true] at asks
  split at asks
  · contradiction
  · split at asks
    · contradiction
    · split at asks
      · contradiction
      · rename_i candidates found
        split at asks
        · contradiction
        · rename_i some
          cases asks
          exact ⟨candidates, found, fun none => some (List.isEmpty_iff.mpr none), rfl⟩

/-- Behind stages the engine is only asked about the candidates they left. -/
theorem loadedEnding_staged {readOnly : Bool} {runtime : Runtime} {query : Bytes} {maxResults : Nat}
    {request : ContentSearchRequest} (active : (splitDetail query).active = true)
    (asks : loadedEnding zone dialect now observed readOnly runtime query maxResults = .asks request) :
    ∃ candidates, searchFiles zone dialect now observed runtime
        (joinStages (queryStages query).dropLast) 0 = .ok candidates ∧
      candidateIds candidates ≠ [] ∧ request.candidates = some (candidateIds candidates) := by
  have long := queryStages_of_active active
  have stages : (splitDetail query).primary :: (splitDetail query).refinements = queryStages query :=
    rfl
  unfold loadedEnding at asks
  dsimp only at asks
  rw [stages] at asks
  split at asks
  · split at asks
    · contradiction
    · rename_i last
      have index : contentStage zone dialect now observed (queryStages query) =
          (queryStages query).length - 1 := by omega
      rw [index, if_pos (by omega), ← List.dropLast_eq_take] at asks
      split at asks
      · contradiction
      · rename_i candidates found
        split at asks
        · contradiction
        · rename_i some
          exact ⟨candidates, found, fun none => some (List.isEmpty_iff.mpr none),
            contentEnding_restricted asks⟩
  · rename_i none
    -- No stage has content scope here, so the whole query has none.
    have missing : contentStage zone dialect now observed (queryStages query) =
        (queryStages query).length := by
      by_contra some
      exact none ⟨active, some⟩
    have scope : ¬ (parseSearchQuery zone dialect now observed query).scope = .content := by
      rw [scope_content_iff]
      rintro ⟨stage, member, content⟩
      have outside := List.findIdx_eq_length.mp missing stage member
      rw [decide_eq_false_iff_not] at outside
      exact outside content
    rw [if_neg scope] at asks
    contradiction

theorem loadedEnding_direct {readOnly : Bool} {runtime : Runtime} {query : Bytes} {maxResults : Nat}
    {request : ContentSearchRequest} (flat : (splitDetail query).active = false)
    (constrained : hasFileConstraints (parseSearchQuery zone dialect now observed query) = true)
    (asks : loadedEnding zone dialect now observed readOnly runtime query maxResults = .asks request) :
    ∃ candidates, searchFiles zone dialect now observed runtime (compileRuntimeQuery zone dialect
        { parseSearchQuery zone dialect now observed query with
          scope := .file, text := [], detailTerms := [] }) 0 = .ok candidates ∧
      candidateIds candidates ≠ [] ∧ request.candidates = some (candidateIds candidates) := by
  simp only [loadedEnding] at asks
  simp only [flat, Bool.false_eq_true, false_and, if_false] at asks
  split at asks
  · exact contentEnding_constrained constrained asks
  · contradiction

variable (zone dialect now) in
/-- A content query with stages or constraints never reaches the engine without the list
of the file rows its candidate query left: `engine` is any engine, and it answers one
request at most, whose candidates are that list and not empty. -/
theorem restricted_search_keeps_candidates (impl : Impl) (query : Bytes) (maxResults : Nat)
    (restricted : Restricted zone dialect now (observedExtensions impl) query) :
    (∀ engine, ((search zone dialect now (impl.withEngine engine) query maxResults).items,
        (search zone dialect now (impl.withEngine engine) query maxResults).error) =
      received ((ending zone dialect now impl query maxResults).result engine maxResults)) ∧
    ∀ request, ending zone dialect now impl query maxResults = .asks request →
      ∃ runtime candidates, impl.runtime = some runtime ∧
        searchFiles zone dialect now (observedExtensions impl) runtime
          (candidateQuery zone dialect now (observedExtensions impl) query) 0 = .ok candidates ∧
        candidateIds candidates ≠ [] ∧ request.candidates = some (candidateIds candidates) := by
  refine ⟨fun engine => search_eq_result impl engine query maxResults, ?_⟩
  intro request asks
  simp only [ending] at asks
  split at asks
  · rename_i runtime ready loaded
    refine ⟨runtime, ?_⟩
    simp only [candidateQuery]
    cases active : (splitDetail query).active with
    | true =>
      obtain ⟨candidates, found⟩ := loadedEnding_staged active asks
      exact ⟨candidates, loaded, found⟩
    | false =>
      have constrained := restricted.resolve_left (by rw [active]; exact Bool.false_ne_true)
      obtain ⟨candidates, found⟩ := loadedEnding_direct active constrained asks
      exact ⟨candidates, loaded, found⟩
  · contradiction

end Endings

/-- A client whose runtime returns one text row. -/
def oneRowClient : Impl where
  ready := true
  runtime := some (soleRuntime [] ⟨lit "notes.txt", lit "txt", false, 0⟩ (lit "/d/notes.txt"))

/-- The engine is asked about that row. -/
theorem one_row_search_keeps_candidates :
    ∃ request, ending .utc .windows 1800000000 oneRowClient (lit "/inside /txt warranty") 0 =
      .asks request ∧ request.candidates.isSome = true := by
  have restricted : Restricted .utc .windows 1800000000 (observedExtensions oneRowClient)
      (lit "/inside /txt warranty") := by decide +kernel
  have asked : (match ending .utc .windows 1800000000 oneRowClient (lit "/inside /txt warranty") 0 with
    | .answers _ => false
    | .asks _ => true) = true := by decide +kernel
  cases ends : ending .utc .windows 1800000000 oneRowClient (lit "/inside /txt warranty") 0 with
  | answers result =>
    rw [ends] at asked
    contradiction
  | asks request =>
    obtain ⟨-, candidates, -, -, -, given⟩ := (restricted_search_keeps_candidates .utc .windows
      1800000000 oneRowClient _ 0 restricted).2 request ends
    exact ⟨request, rfl, by rw [given]; rfl⟩

end Such.RuntimeClient
