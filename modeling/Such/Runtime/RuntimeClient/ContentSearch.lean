import Such.Runtime.RuntimeClient
import Such.Ui.SearchDialect.Window

/-! Which file constraints of a content query its hits obey. The content engine only
sees identifiers, so a hit obeys exactly what the candidate pass filtered by. -/
namespace Such.RuntimeClient
open ByteText CivilTime SearchDialect SearchableFiles

/-- What a file constraint looks at. -/
structure FileInfo where
  filename : Bytes
  extension : Bytes
  pinned : Bool
  modifiedUnixSeconds : Int
deriving DecidableEq

def ResultItem.info (item : ResultItem) : FileInfo :=
  ⟨item.filename, item.extension, item.pinned, item.modifiedUnixSeconds⟩

/-- The pin, extension and time constraints of one filter. -/
def Satisfies (filter : SearchFilter) (file : FileInfo) : Prop :=
  (filter.pinnedOnly = true → file.pinned = true) ∧
    (filter.extensions = [] ∨ normalizeExtension file.extension ∈ filter.extensions) ∧
    filter.modified.Admits file.modifiedUnixSeconds

instance (filter : SearchFilter) (file : FileInfo) : Decidable (Satisfies filter file) :=
  inferInstanceAs (Decidable (_ ∧ _))

/-- File rows carry the metadata of their files; content hits stay inside a given
candidate list and carry their files' names. -/
structure Runtime.Truthful (runtime : Runtime) (files : UInt64 → FileInfo) : Prop where
  search : ∀ query dialect limit rows, runtime.search query dialect limit = .ok rows →
    ∀ row ∈ rows, (appendResult row).info = files row.fileId
  content : ∀ searchContent, runtime.searchContent = some searchContent →
    ∀ request ids rows, request.candidates = some ids → searchContent request = .ok rows →
    ∀ row ∈ rows, row.fileId ∈ ids ∧ abiText row.filename = (files row.fileId).filename ∧
      abiText row.extension = (files row.fileId).extension

section Implication

/-- Every file that satisfies `inner` satisfies `outer`, read off the constraints. -/
def Implies (inner outer : SearchFilter) : Prop :=
  inner.modified.Empty ∨
    ((outer.pinnedOnly = true → inner.pinnedOnly = true) ∧
      (outer.extensions = [] ∨ (inner.extensions ≠ [] ∧ inner.extensions ⊆ outer.extensions)) ∧
      inner.modified.Bounds outer.modified)

instance (inner outer : SearchFilter) : Decidable (Implies inner outer) :=
  inferInstanceAs (Decidable (_ ∨ (_ ∧ (_ ∨ (_ ∧ ∀ ext ∈ inner.extensions, ext ∈ outer.extensions)) ∧ _)))

/-- Extensions as the parser stores them. -/
def PlainExtensions (filter : SearchFilter) : Prop :=
  ∀ ext ∈ filter.extensions, ext ≠ [] ∧ normalizeExtension ext = ext ∧ 0 ∉ ext

theorem satisfies_of_implies {inner outer : SearchFilter} (implies : Implies inner outer)
    {file : FileInfo} (held : Satisfies inner file) : Satisfies outer file := by
  obtain ⟨pin, ext, admitted⟩ := held
  rcases implies with empty | ⟨pins, exts, bounds⟩
  · exact absurd empty ((DateRange.exists_admits_iff _).mp ⟨_, admitted⟩)
  · refine ⟨fun wanted => pin (pins wanted), ?_, ?_⟩
    · rcases exts with none | ⟨some, inside⟩
      · exact .inl none
      · rcases ext with none | member
        · exact absurd none some
        · exact .inr (inside member)
    · exact (DateRange.admits_imp_iff _ _).mpr (.inr bounds) _ admitted

/-- Without the implication some file tells the filters apart. -/
theorem exists_of_not_implies {inner outer : SearchFilter} (plain : PlainExtensions inner)
    (plainOuter : PlainExtensions outer) (filename : Bytes) (differ : ¬ Implies inner outer) :
    ∃ file : FileInfo, file.filename = filename ∧ 0 ∉ file.extension ∧ Satisfies inner file ∧
      ¬ Satisfies outer file := by
  simp only [Implies, not_or] at differ
  obtain ⟨nonempty, differ⟩ := differ
  obtain ⟨t, admitted⟩ := (DateRange.exists_admits_iff _).mpr nonempty
  have choice : ∃ ext, 0 ∉ ext ∧ (inner.extensions = [] ∨ normalizeExtension ext ∈ inner.extensions) := by
    cases exts : inner.extensions with
    | nil => exact ⟨[], by simp⟩
    | cons ext more =>
      have member : ext ∈ inner.extensions := by simp [exts]
      obtain ⟨-, same, free⟩ := plain ext member
      exact ⟨ext, free, .inr (by simp [same])⟩
  obtain ⟨ext, free, wanted⟩ := choice
  by_cases pins : outer.pinnedOnly = true → inner.pinnedOnly = true
  · by_cases exts : outer.extensions = [] ∨
        (inner.extensions ≠ [] ∧ inner.extensions ⊆ outer.extensions)
    · have window : ¬ ∀ t, inner.modified.Admits t → outer.modified.Admits t := by
        rw [DateRange.admits_imp_iff]
        rintro (empty | bounds)
        · exact nonempty empty
        · exact differ ⟨pins, exts, bounds⟩
      simp only [Classical.not_forall] at window
      obtain ⟨u, inside, outside⟩ := window
      exact ⟨⟨filename, ext, true, u⟩, rfl, free, ⟨fun _ => rfl, wanted, inside⟩,
        fun held => outside held.2.2⟩
    · obtain ⟨some, fails⟩ := not_or.mp exts
      have other : ∃ ext, 0 ∉ ext ∧ (inner.extensions = [] ∨ normalizeExtension ext ∈ inner.extensions) ∧
          normalizeExtension ext ∉ outer.extensions := by
        by_cases none : inner.extensions = []
        · refine ⟨[], by simp, .inl none, fun member => ?_⟩
          exact (plainOuter _ member).1 rfl
        · have missing : ¬ inner.extensions ⊆ outer.extensions := fun inside => fails ⟨none, inside⟩
          rw [List.subset_def] at missing
          simp only [Classical.not_forall] at missing
          obtain ⟨e, member, outside⟩ := missing
          obtain ⟨-, same, free⟩ := plain e member
          exact ⟨e, free, .inr (by rwa [same]), by rwa [same]⟩
      obtain ⟨e, clear, inside, outside⟩ := other
      refine ⟨⟨filename, e, true, t⟩, rfl, clear, ⟨fun _ => rfl, inside, admitted⟩, fun held => ?_⟩
      rcases held.2.1 with none | member
      · exact some none
      · exact outside member
  · simp only [Classical.not_imp] at pins
    refine ⟨⟨filename, ext, false, t⟩, rfl, free, ⟨fun pinned => absurd pinned pins.2, wanted, admitted⟩,
      fun held => ?_⟩
    exact absurd (held.1 pins.1) (by simp)

end Implication

section FilePass

theorem plain_of_readable {zone : Zone} {dialect : PlatformDialect} {observed : List Bytes}
    {filter : SearchFilter} {texts : List Bytes} (readable : Readable zone dialect observed filter texts) :
    PlainExtensions filter := by
  intro ext member
  obtain ⟨body, same, -, -, looks, -⟩ :=
    extension_of_classifyToken zone dialect observed (readable.extensions_plain ext member)
  have folded : lower ext = ext := by rw [same, lower_lower]
  rw [← looksExtension_lower, ← same] at looks
  have nonempty := (looksExtension_bytes looks).1
  have allowed : ∀ b ∈ ext, isAlnum b = true ∨ b = 95 ∨ b = 45 ∨ b = 43 := by
    simp only [looksExtension, Bool.and_eq_true, List.all_eq_true, Bool.or_eq_true, beq_iff_eq] at looks
    intro b inside
    simpa [or_assoc] using looks.2 b inside
  refine ⟨nonempty, ?_, fun inside => absurd (allowed 0 inside) (by decide)⟩
  have head : ext.head? ≠ some 46 := by
    intro dot
    exact absurd (allowed 46 (List.mem_of_head? dot)) (by decide)
  simp [normalizeExtension, folded, head]

theorem map_normalizeExtension {filter : SearchFilter} (plain : PlainExtensions filter) :
    filter.extensions.map normalizeExtension = filter.extensions := by
  conv_rhs => rw [← List.map_id filter.extensions]
  exact List.map_congr_left fun ext member => (plain ext member).2.1

/-- The terms a drilled file pass looks for in name and path. -/
def TermsOccur (filter : SearchFilter) (item : ResultItem) : Prop :=
  ∀ term ∈ filter.detailTerms, lower term = [] ∨
    lower term <:+: lower (item.filename ++ 10 :: item.path)

theorem passesFilter_iff {filter : SearchFilter} (plain : PlainExtensions filter) (item : ResultItem) :
    passesFilter filter item = true ↔
      searchableFilename item.filename item.extension = true ∧ Satisfies filter item.info ∧
        TermsOccur filter item := by
  have after : (filter.modified.afterUnixSeconds.all fun after =>
      !(item.modifiedUnixSeconds < after)) = true ↔
        ∀ bound ∈ filter.modified.afterUnixSeconds, bound ≤ item.modifiedUnixSeconds := by
    cases filter.modified.afterUnixSeconds <;> simp
  have before : (filter.modified.beforeUnixSeconds.all fun before =>
      !(before ≤ item.modifiedUnixSeconds)) = true ↔
        ∀ bound ∈ filter.modified.beforeUnixSeconds, item.modifiedUnixSeconds < bound := by
    cases filter.modified.beforeUnixSeconds <;> simp
  have terms : (filter.detailTerms.map lower).all (fun term => term.isEmpty ||
      occursIn term (lower (item.filename ++ 10 :: item.path))) = true ↔ TermsOccur filter item := by
    simp [TermsOccur, occursIn]
  have pin : (!filter.pinnedOnly || item.pinned) = true ↔
      (filter.pinnedOnly = true → item.pinned = true) := by
    cases filter.pinnedOnly <;> simp
  simp only [passesFilter, Bool.and_eq_true, map_normalizeExtension plain]
  rw [after, before, terms, pin]
  simp only [Satisfies, ResultItem.info, DateRange.Admits, Bool.or_eq_true, List.isEmpty_iff,
    List.contains_iff_mem]
  tauto

/-- No row matches a term with a NUL byte. -/
theorem notMem_of_termsOccur {filter : SearchFilter} {row : AbiResult}
    (occur : TermsOccur filter (appendResult row)) : ∀ term ∈ filter.detailTerms, (0 : UInt8) ∉ term := by
  intro term member zero
  have folded : (0 : UInt8) ∈ lower term := List.mem_map.mpr ⟨0, zero, rfl⟩
  rcases occur term member with empty | inside
  · rw [empty] at folded
    cases folded
  · obtain ⟨b, plain, same⟩ := List.mem_map.mp (inside.subset folded)
    obtain rfl : b = 0 := (toLower_eq_iff (by decide)).mp same
    rcases List.mem_append.mp plain with name | path
    · exact notMem_abiText _ name
    · rcases List.mem_cons.mp path with clash | path
      · cases clash
      · exact notMem_abiText _ path

variable {zone : Zone} {dialect : PlatformDialect} {now : Int} {observed : List Bytes}
  {runtime : Runtime}

/-- A row of the uncapped file pass is a runtime row that passes the parsed filter. -/
theorem mem_searchFiles {query : Bytes} {candidates : List ResultItem} {item : ResultItem}
    (found : searchFiles zone dialect now observed runtime query 0 = .ok candidates)
    (member : item ∈ candidates) :
    ∃ request limit rows, runtime.search request (rawDialect dialect) limit = .ok rows ∧
      ∃ row ∈ rows, appendResult row = item ∧
        Satisfies (parseSearchQuery zone dialect now observed query) item.info ∧
        TermsOccur (parseSearchQuery zone dialect now observed query) item := by
  unfold searchFiles at found
  dsimp only at found
  split at found
  · cases found
  · rename_i raw answer
    injection found with found
    rw [keepRows_eq, List.nil_append] at found
    subst found
    obtain ⟨inside, passes⟩ := List.mem_filter.mp member
    obtain ⟨row, rowIn, rfl⟩ := List.mem_map.mp inside
    have plain := plain_of_readable (readable_parseSearchQuery zone dialect now observed query)
    exact ⟨_, _, raw, answer, row, rowIn, rfl, ((passesFilter_iff plain _).mp passes).2⟩

theorem mem_candidateIds {candidates : List ResultItem} {id : UInt64}
    (member : id ∈ candidateIds candidates) : ∃ item ∈ candidates, item.fileId = id := by
  obtain ⟨item, inside, same⟩ := List.mem_map.mp member
  exact ⟨item, List.mem_of_mem_filter inside, same⟩

/-- Candidates of a truthful runtime are files that satisfy the parsed filter. -/
theorem satisfies_of_candidate {files : UInt64 → FileInfo} (truthful : runtime.Truthful files)
    {query : Bytes} {candidates : List ResultItem} {id : UInt64}
    (found : searchFiles zone dialect now observed runtime query 0 = .ok candidates)
    (member : id ∈ candidateIds candidates) :
    (∀ term ∈ (parseSearchQuery zone dialect now observed query).detailTerms, 0 ∉ term) ∧
      Satisfies (parseSearchQuery zone dialect now observed query) (files id) := by
  obtain ⟨item, inside, rfl⟩ := mem_candidateIds member
  obtain ⟨request, limit, rows, answer, row, rowIn, rfl, held, occur⟩ := mem_searchFiles found inside
  have same := truthful.search request _ limit rows answer row rowIn
  rw [same] at held
  exact ⟨notMem_of_termsOccur occur, held⟩

/-- A hit of a restricted content request names a candidate. -/
theorem mem_requestContent {files : UInt64 → FileInfo} (truthful : runtime.Truthful files)
    {searchContent} (provided : runtime.searchContent = some searchContent) {filter : SearchFilter}
    {ids : List UInt64} {maxResults : Nat} {items : List ResultItem} {hit : ResultItem}
    (found : requestContent searchContent filter (some ids) maxResults = .ok items)
    (member : hit ∈ items) : hit.fileId ∈ ids := by
  unfold requestContent at found
  dsimp only at found
  split at found
  · cases found
  · rename_i raw answer
    have kept : hit ∈ (raw.map appendContentResult).filter fun item =>
        searchableTextFilename item.filename item.extension := by
      injection found with found
      subst found
      split at member
      · exact List.mem_of_mem_take member
      · exact member
    obtain ⟨row, rowIn, rfl⟩ := List.mem_map.mp (List.mem_of_mem_filter kept)
    exact (truthful.content _ provided _ _ _ rfl answer row rowIn).1

end FilePass

section ContentQuery
variable (zone : Zone) (dialect : PlatformDialect) (now : Int) (observed : List Bytes) (query : Bytes)

def lastStage : Bytes := (queryStages query).getLastD []

/-- The final stage, and no earlier one, has content scope. -/
def IsContentQuery : Prop :=
  contentStage zone dialect now observed (queryStages query) + 1 = (queryStages query).length

instance : Decidable (IsContentQuery zone dialect now observed query) :=
  inferInstanceAs (Decidable (_ = _))

/-- The text handed to the content engine. -/
def contentText : Bytes := (parseSearchQuery zone dialect now observed (lastStage query)).text

/-- The filter the content engine's candidates have passed: the earlier stages read
as one query, or the constraints of a direct query with day-precise bounds. -/
def candidateFilter : SearchFilter :=
  if (splitDetail query).active then
    parseSearchQuery zone dialect now observed (joinStages (queryStages query).dropLast)
  else
    let filter := parseSearchQuery zone dialect now observed query
    { filter with modified := filter.modified.dayRound zone, detailTerms := [] }

/-- The candidate filter implies every stage's constraints, or nothing can be found. -/
def HonoursEveryStage : Prop :=
  contentText zone dialect now observed query = [] ∨
    (∃ term ∈ (candidateFilter zone dialect now observed query).detailTerms, 0 ∈ term) ∨
    ∀ stage ∈ queryStages query, Implies (candidateFilter zone dialect now observed query)
      (parseSearchQuery zone dialect now observed stage)

instance : Decidable (HonoursEveryStage zone dialect now observed query) :=
  inferInstanceAs (Decidable (_ ∨ _ ∨ _))

variable {zone dialect now observed query}

theorem queryStages_of_flat (flat : (splitDetail query).active = false) :
    queryStages query = [(splitDetail query).primary] := by
  rw [splitDetail_active] at flat
  simpa [queryStages] using flat

theorem queryStages_of_active (active : (splitDetail query).active = true) :
    2 ≤ (queryStages query).length := by
  rw [splitDetail_active] at active
  cases rest : (splitDetail query).refinements with
  | nil => simp [rest] at active
  | cons first more => simp [queryStages, rest]

theorem lastStage_of_flat (flat : (splitDetail query).active = false) :
    parseSearchQuery zone dialect now observed (lastStage query) =
      parseSearchQuery zone dialect now observed query := by
  rw [lastStage, queryStages_of_flat flat]
  exact parseSearchQuery_primary zone dialect now observed flat

/-- The plan of a content query. -/
theorem searchLoaded_content (content : IsContentQuery zone dialect now observed query)
    (readOnly : Bool) (runtime : Runtime) (maxResults : Nat) :
    searchLoaded zone dialect now observed readOnly runtime query maxResults =
      if (splitDetail query).active then
        match searchFiles zone dialect now observed runtime
            (joinStages (queryStages query).dropLast) 0 with
        | .error e => .error e
        | .ok candidates =>
          if (candidateIds candidates).isEmpty then .ok []
          else searchContent zone dialect now observed readOnly runtime
            (parseSearchQuery zone dialect now observed (lastStage query))
            (some (candidateIds candidates)) maxResults
      else
        searchContent zone dialect now observed readOnly runtime
          (parseSearchQuery zone dialect now observed query) none maxResults := by
  have stages : queryStages query = (splitDetail query).primary :: (splitDetail query).refinements := rfl
  simp only [IsContentQuery] at content
  unfold searchLoaded
  dsimp only
  rw [← stages]
  cases active : (splitDetail query).active with
  | true =>
    have long := queryStages_of_active active
    have stage : contentStage zone dialect now observed (queryStages query) =
        (queryStages query).length - 1 := by omega
    have last : (queryStages query).getD ((queryStages query).length - 1) [] = lastStage query := by
      rw [lastStage, List.getLastD_eq_getLast?, List.getLast?_eq_getElem?, List.getD_eq_getElem?_getD]
    rw [stage, if_pos ⟨rfl, by omega⟩, if_neg (by omega), if_pos (by omega), last,
      ← List.dropLast_eq_take]
    rfl
  | false =>
    have scope : (parseSearchQuery zone dialect now observed query).scope = .content := by
      rw [queryStages_of_flat active] at content
      simp only [contentStage, List.findIdx_cons, List.findIdx_nil, List.length_singleton] at content
      rw [← parseSearchQuery_primary zone dialect now observed active]
      by_contra other
      simp [other] at content
    simp [scope]

/-- The candidate filter of a direct content query, as the code builds it. -/
theorem readable_constraints {filter : SearchFilter} {texts : List Bytes}
    (readable : Readable zone dialect observed filter texts) :
    Readable zone dialect observed { filter with scope := .file, text := [], detailTerms := [] } [] where
  text := rfl
  texts_word := by simp
  texts_free := by simp
  texts_plain := by simp
  extensions_plain := readable.extensions_plain
  extensions_nodup := readable.extensions_nodup

/-- Reparsing the printed constraints changes nothing but the time bounds. -/
theorem satisfies_printed_iff {filter : SearchFilter} {texts : List Bytes}
    (readable : Readable zone dialect observed filter texts) (file : FileInfo) :
    Satisfies (parseSearchQuery zone dialect now observed (compileRuntimeQuery zone dialect
        { filter with scope := .file, text := [], detailTerms := [] })) file ↔
      Satisfies { filter with modified := filter.modified.dayRound zone, detailTerms := [] } file := by
  rw [parse_compile now (readable_constraints readable)]
  rfl

theorem satisfies_unconstrained {filter : SearchFilter} (free : hasFileConstraints filter = false)
    (file : FileInfo) :
    Satisfies { filter with modified := filter.modified.dayRound zone, detailTerms := [] } file := by
  simp only [hasFileConstraints, Bool.or_eq_false_iff, Bool.not_eq_false', List.isEmpty_iff,
    Option.isSome_eq_false_iff, Option.isNone_iff_eq_none] at free
  obtain ⟨⟨⟨pin, exts⟩, after⟩, before⟩ := free
  refine ⟨by simp [pin], .inl exts, by simp [DateRange.dayRound, after], ?_⟩
  simp [DateRange.dayRound, before]

theorem hit_of_searchContent {runtime : Runtime} {files : UInt64 → FileInfo}
    (truthful : runtime.Truthful files) {filter : SearchFilter} {texts : List Bytes}
    (readable : Readable zone dialect observed filter texts) {readOnly : Bool}
    {restriction : Option (List UInt64)} {maxResults : Nat} {items : List ResultItem}
    {hit : ResultItem} (member : hit ∈ items)
    (found : searchContent zone dialect now observed readOnly runtime filter restriction maxResults =
      .ok items) :
    filter.text ≠ [] ∧ (∀ ids ∈ restriction, hit.fileId ∈ ids) ∧ (restriction = none →
      Satisfies { filter with modified := filter.modified.dayRound zone, detailTerms := [] }
        (files hit.fileId)) := by
  simp only [searchContent] at found
  split at found
  · cases found
  split at found
  · cases found
  rename_i engine provided
  split at found
  · injection found with found
    subst found
    cases member
  rename_i text
  refine ⟨by simpa using text, ?_⟩
  cases restriction with
  | some ids =>
    have inside := mem_requestContent truthful provided found member
    exact ⟨by simpa using inside, by simp⟩
  | none =>
    refine ⟨by simp, fun _ => ?_⟩
    dsimp only at found
    split at found
    · split at found
      · cases found
      · rename_i candidates passed
        split at found
        · injection found with found
          subst found
          cases member
        · have inside := mem_requestContent truthful provided found member
          exact (satisfies_printed_iff readable _).mp (satisfies_of_candidate truthful passed inside).2
    · rename_i free
      have none : hasFileConstraints filter = false := by simpa [hasFileConstraints] using free
      exact satisfies_unconstrained none _

/-- A hit has a text to match and belongs to a file that passed the candidate filter. -/
theorem hit_of_searchLoaded (content : IsContentQuery zone dialect now observed query)
    {runtime : Runtime} {files : UInt64 → FileInfo} (truthful : runtime.Truthful files)
    {readOnly : Bool} {maxResults : Nat} {items : List ResultItem} {hit : ResultItem}
    (member : hit ∈ items)
    (found : searchLoaded zone dialect now observed readOnly runtime query maxResults = .ok items) :
    contentText zone dialect now observed query ≠ [] ∧
      (∀ term ∈ (candidateFilter zone dialect now observed query).detailTerms, 0 ∉ term) ∧
      Satisfies (candidateFilter zone dialect now observed query) (files hit.fileId) := by
  rw [searchLoaded_content content] at found
  simp only [contentText, candidateFilter]
  cases active : (splitDetail query).active with
  | true =>
    simp only [active, if_true] at found ⊢
    split at found
    · cases found
    · rename_i candidates passed
      split at found
      · injection found with found
        subst found
        cases member
      · obtain ⟨text, inside, -⟩ := hit_of_searchContent truthful
          (readable_parseSearchQuery zone dialect now observed _) member found
        exact ⟨text, satisfies_of_candidate truthful passed (inside _ rfl)⟩
  | false =>
    simp only [active, Bool.false_eq_true, if_false] at found ⊢
    obtain ⟨text, -, held⟩ := hit_of_searchContent truthful
      (readable_parseSearchQuery zone dialect now observed _) member found
    exact ⟨by rwa [lastStage_of_flat active], by simp, held rfl⟩

end ContentQuery

section SoleFile
variable (names : List Bytes) (file : FileInfo) (path : Bytes)

def soleRow : AbiResult where
  fileId := 0
  filename := some file.filename
  path := some path
  extension := some file.extension
  pinned := if file.pinned then 1 else 0
  indexed := 1
  authorized := 1
  modifiedUnixSeconds := file.modifiedUnixSeconds
  sizeBytes := 0

def soleHit : AbiContentResult where
  fileId := 0
  filename := some file.filename
  path := some path
  extension := some file.extension
  locatorKind := 1
  pageNumber := 0
  lineNumber := 1
  slideNumber := 0
  sheetNumber := 0
  byteOffset := 0
  logicalName := none
  snippet := none

/-- A runtime whose index holds one text file that matches every query. -/
def soleRuntime : Runtime where
  lastError := []
  listExtensions := names
  search _ _ _ := .ok [soleRow file path]
  searchContent := some fun request =>
    .ok (if request.candidates.all (·.contains 0) then [soleHit file path] else [])

variable {names file path}

theorem soleRow_info (name : 0 ∉ file.filename) (ext : 0 ∉ file.extension) :
    (appendResult (soleRow file path)).info = file := by
  obtain ⟨filename, extension, pinned, modified⟩ := file
  cases pinned <;>
    simp [appendResult, ResultItem.info, soleRow, abiText, cstr_of_notMem name, cstr_of_notMem ext]

theorem soleRuntime_truthful (name : 0 ∉ file.filename) (ext : 0 ∉ file.extension) :
    (soleRuntime names file path).Truthful fun _ => file where
  search query dialect limit rows answer row member := by
    injection answer with answer
    subst answer
    obtain rfl := List.mem_singleton.mp member
    exact soleRow_info name ext
  content searchContent provided request ids rows given answer row member := by
    injection provided with provided
    subst provided
    injection answer with answer
    subst answer
    split at member
    · rename_i inside
      obtain rfl := List.mem_singleton.mp member
      refine ⟨?_, ?_, ?_⟩
      · simpa [given, soleHit] using inside
      · simp [soleHit, abiText, cstr_of_notMem name]
      · simp [soleHit, abiText, cstr_of_notMem ext]
    · cases member

def soleName : Bytes := lit "a.txt"

theorem soleName_searchable (ext : Bytes) :
    searchableFilename soleName ext = true ∧ searchableTextFilename soleName ext = true := by
  have plain : searchableFilename soleName [] = true ∧ searchableTextFilename soleName [] = true := by
    decide +kernel
  exact plain

variable {zone : Zone} {dialect : PlatformDialect} {now : Int} {observed : List Bytes}

/-- The sole file passes every file pass whose filter it satisfies. -/
theorem sole_searchFiles (named : file.filename = soleName) (ext : 0 ∉ file.extension)
    (clear : 0 ∉ path) {query : Bytes}
    (held : Satisfies (parseSearchQuery zone dialect now observed query) file)
    (terms : ∀ term ∈ (parseSearchQuery zone dialect now observed query).detailTerms, term <:+: path) :
    ∃ candidates, searchFiles zone dialect now observed (soleRuntime names file path) query 0 =
      .ok candidates ∧ candidateIds candidates = [0] := by
  have name : 0 ∉ file.filename := by
    rw [named]
    decide
  have info : (appendResult (soleRow file path)).info = file := soleRow_info name ext
  have searchable := soleName_searchable (abiText (some file.extension))
  have filename : (appendResult (soleRow file path)).filename = soleName := by
    rw [← named]
    exact congrArg FileInfo.filename info
  have passes : passesFilter (parseSearchQuery zone dialect now observed query)
      (appendResult (soleRow file path)) = true := by
    refine (passesFilter_iff (plain_of_readable (readable_parseSearchQuery zone dialect now observed
      query)) _).mpr ⟨?_, by rwa [info], fun term member => .inr ?_⟩
    · rw [filename]
      exact searchable.1
    · have inside : term <:+: (appendResult (soleRow file path)).path := by
        simpa [appendResult, soleRow, abiText, cstr_of_notMem clear] using terms term member
      have last : (appendResult (soleRow file path)).path <:+ (appendResult (soleRow file path)).filename ++
          10 :: (appendResult (soleRow file path)).path :=
        (List.suffix_cons _ _).trans (List.suffix_append _ _)
      exact (inside.trans last.isInfix).map toLower
  refine ⟨[appendResult (soleRow file path)], ?_, ?_⟩
  · simp [searchFiles, soleRuntime, keepRows_eq, passes]
  · have text : searchableTextFilename (appendResult (soleRow file path)).filename
        (appendResult (soleRow file path)).extension = true := by
      rw [filename]
      exact searchable.2
    have indexed : (appendResult (soleRow file path)).indexed = true := by
      simp [appendResult, soleRow]
    simp only [candidateIds, List.filter_cons, text, indexed, Bool.and_self, if_true,
      List.filter_nil, List.map_cons, List.map_nil]
    rfl

/-- A content request restricted to the sole file, or unrestricted, finds it. -/
theorem sole_requestContent (named : file.filename = soleName) {filter : SearchFilter}
    {restriction : Option (List UInt64)} (allowed : restriction.all (·.contains 0) = true) :
    ∃ hit, hit.fileId = 0 ∧ requestContent (fun request =>
        .ok (if request.candidates.all (·.contains 0) then [soleHit file path] else [])) filter
          restriction 0 = .ok [hit] := by
  have text : searchableTextFilename (appendContentResult (soleHit file path)).filename
      (appendContentResult (soleHit file path)).extension = true := by
    have name : (appendContentResult (soleHit file path)).filename = soleName := by
      simp only [appendContentResult, soleHit, abiText, Option.map_some, Option.getD_some, named]
      decide
    rw [name]
    exact (soleName_searchable _).2
  refine ⟨appendContentResult (soleHit file path), rfl, ?_⟩
  simp only [requestContent, allowed, if_true, List.map_cons, List.map_nil, List.filter_cons, text,
    List.filter_nil]
  rfl

theorem sole_searchContent (named : file.filename = soleName) {filter : SearchFilter}
    (text : filter.text ≠ []) :
    ∃ hit, hit.fileId = 0 ∧ searchContent zone dialect now observed false
      (soleRuntime names file path) filter (some [0]) 0 = .ok [hit] := by
  obtain ⟨hit, zero, request⟩ := @sole_requestContent file path named filter (some [0]) (by decide)
  refine ⟨hit, zero, ?_⟩
  simpa [searchContent, soleRuntime, text] using request

/-- Any file that satisfies the candidate filter can be a hit. -/
theorem sole_searchLoaded {query : Bytes} (content : IsContentQuery zone dialect now observed query)
    (text : contentText zone dialect now observed query ≠ []) (clear : 0 ∉ path)
    (within : ∀ term ∈ (candidateFilter zone dialect now observed query).detailTerms, term <:+: path)
    (named : file.filename = soleName) (ext : 0 ∉ file.extension)
    (held : Satisfies (candidateFilter zone dialect now observed query) file) :
    ∃ hit, hit.fileId = 0 ∧ searchLoaded zone dialect now observed false
      (soleRuntime names file path) query 0 = .ok [hit] := by
  rw [searchLoaded_content content]
  simp only [candidateFilter] at held within
  simp only [contentText] at text
  cases active : (splitDetail query).active with
  | true =>
    simp only [active, if_true] at held within ⊢
    obtain ⟨candidates, found, ids⟩ := @sole_searchFiles names file path zone dialect now observed
      named ext clear _ held within
    rw [found]
    dsimp only
    rw [ids, if_neg (by decide)]
    exact sole_searchContent named text
  | false =>
    rw [lastStage_of_flat active] at text
    simp only [active, Bool.false_eq_true, if_false] at held ⊢
    have readable := readable_parseSearchQuery zone dialect now observed query
    have printed := (@satisfies_printed_iff zone dialect now observed _ _ readable file).mpr held
    have absent : ∀ term ∈ (parseSearchQuery zone dialect now observed (compileRuntimeQuery zone dialect
        { parseSearchQuery zone dialect now observed query with
          scope := .file, text := [], detailTerms := [] })).detailTerms, term <:+: path := by
      rw [parse_compile now (readable_constraints readable)]
      simp
    obtain ⟨candidates, found, ids⟩ := @sole_searchFiles names file path zone dialect now observed
      named ext clear _ printed absent
    have filled : ¬ (parseSearchQuery zone dialect now observed query).text.isEmpty = true := by
      simpa using text
    have engine : (soleRuntime names file path).searchContent = some fun request =>
        .ok (if request.candidates.all (·.contains 0) then [soleHit file path] else []) := rfl
    simp only [searchContent]
    simp only [Bool.false_eq_true, if_false, engine, if_neg filled, found, ids]
    split
    · rw [if_neg (by decide)]
      exact sole_requestContent named (by decide)
    · exact sole_requestContent named (by decide)

end SoleFile

section Promise
variable (zone : Zone) (dialect : PlatformDialect) (now : Int) (names : List Bytes) (query : Bytes)

/-- Every hit, in every state of a truthful runtime that lists `names` as its
extensions, obeys the file constraints of every stage. -/
def HitsSatisfyEveryStage : Prop :=
  ∀ (impl : Impl) (runtime : Runtime) (files : UInt64 → FileInfo), impl.runtime = some runtime →
    runtime.listExtensions = names → runtime.Truthful files →
    ∀ maxResults, ∀ hit ∈ (search zone dialect now impl query maxResults).items,
      ∀ stage ∈ queryStages query,
        Satisfies (parseSearchQuery zone dialect now (names.map cstr) stage) (files hit.fileId)

theorem searchLoaded_of_mem_search {impl : Impl} {runtime : Runtime} (loaded : impl.runtime = some runtime)
    {maxResults : Nat} {hit : ResultItem}
    (member : hit ∈ (search zone dialect now impl query maxResults).items) :
    ∃ items, hit ∈ items ∧ searchLoaded zone dialect now (runtime.listExtensions.map cstr)
      impl.readOnly runtime query maxResults = .ok items := by
  obtain ⟨readOnly, ready, error, library⟩ := impl
  simp only at loaded
  subst loaded
  cases ready with
  | false => cases member
  | true =>
    simp only [search, observedExtensions] at member
    split at member
    · cases member
    · rename_i items found
      exact ⟨items, member, found⟩

/-- A content query keeps to its file constraints exactly when the candidate pass
already implies those of every stage. -/
theorem hitsSatisfyEveryStage_iff (content : IsContentQuery zone dialect now (names.map cstr) query) :
    HitsSatisfyEveryStage zone dialect now names query ↔
      HonoursEveryStage zone dialect now (names.map cstr) query := by
  constructor
  · intro kept
    by_contra leaks
    simp only [HonoursEveryStage, not_or, not_exists, not_and] at leaks
    obtain ⟨text, clear, differ⟩ := leaks
    simp only [Classical.not_forall] at differ
    obtain ⟨stage, member, differ⟩ := differ
    have readable := readable_parseSearchQuery zone dialect now (names.map cstr)
    have plain : PlainExtensions (candidateFilter zone dialect now (names.map cstr) query) := by
      simp only [candidateFilter]
      split
      · exact plain_of_readable (readable _)
      · intro ext inside
        exact plain_of_readable (readable query) ext inside
    obtain ⟨file, named, ext, held, fails⟩ :=
      exists_of_not_implies plain (plain_of_readable (readable stage)) soleName differ
    have name : 0 ∉ file.filename := by
      rw [named]
      decide
    obtain ⟨path, within, pathClear⟩ : ∃ path : Bytes,
        (∀ term ∈ (candidateFilter zone dialect now (names.map cstr) query).detailTerms,
          term <:+: path) ∧ 0 ∉ path := by
      refine ⟨_, fun term => List.infix_of_mem_flatten, fun zero => ?_⟩
      obtain ⟨term, inside, zero⟩ := List.mem_flatten.mp zero
      exact clear term inside zero
    obtain ⟨hit, -, found⟩ := @sole_searchLoaded names file path zone dialect now _ query content text
      pathClear within named ext held
    have loaded : (soleRuntime names file path).listExtensions = names := rfl
    refine fails (kept ⟨false, true, [], some (soleRuntime names file path)⟩ _ (fun _ => file) rfl rfl
      (soleRuntime_truthful name ext) 0 hit ?_ stage member)
    simp [search, observedExtensions, loaded, found]
  · intro honours impl runtime files loaded listed truthful maxResults hit member stage inside
    obtain ⟨items, member, found⟩ := searchLoaded_of_mem_search zone dialect now query loaded member
    rw [listed] at found
    obtain ⟨text, clear, held⟩ := hit_of_searchLoaded content truthful member found
    rcases honours with empty | ⟨term, within, zero⟩ | implied
    · exact absurd empty text
    · exact absurd zero (clear term within)
    · exact satisfies_of_implies (implied stage inside) held

theorem queryTokens_foldl (query : Bytes) (stages : List Bytes) :
    queryTokens (stages.foldl (fun query stage => query ++ lit " /; " ++ stage) query) =
      queryTokens query ++ stages.flatMap queryTokens := by
  induction stages generalizing query with
  | nil => simp
  | cons stage stages ih =>
    have mark : query ++ lit " /; " ++ stage = query ++ 32 :: ([47, 59] ++ 32 :: stage) := by
      rw [List.append_assoc]
      rfl
    have empty : queryTokens [47, 59] = [] := by decide
    rw [List.foldl_cons, ih, mark, queryTokens_append_blank, queryTokens_append_blank, empty,
      List.flatMap_cons, List.nil_append, List.append_assoc]

/-- Joined stages are read as one flat query. -/
theorem queryTokens_joinStages (stages : List Bytes) :
    queryTokens (joinStages stages) = stages.flatMap queryTokens := by
  cases stages with
  | nil => rfl
  | cons first rest => exact queryTokens_foldl first rest

variable {zone dialect now query}

/-- A pin written in any stage before the content stage is always obeyed. -/
theorem pinned_of_earlier_stage {observed : List Bytes} {stage : Bytes}
    (content : IsContentQuery zone dialect now observed query)
    (active : (splitDetail query).active = true) (earlier : stage ∈ (queryStages query).dropLast)
    (pin : (parseSearchQuery zone dialect now observed stage).pinnedOnly = true) {runtime : Runtime}
    {files : UInt64 → FileInfo} (truthful : runtime.Truthful files) {readOnly : Bool}
    {maxResults : Nat} {items : List ResultItem} {hit : ResultItem} (member : hit ∈ items)
    (found : searchLoaded zone dialect now observed readOnly runtime query maxResults = .ok items) :
    (files hit.fileId).pinned = true := by
  obtain ⟨-, -, held⟩ := hit_of_searchLoaded content truthful member found
  refine held.1 ?_
  have flat : ∀ q, (parseSearchQuery zone dialect now observed q).pinnedOnly =
      tokensPin zone dialect observed (queryTokens q) := by
    intro q
    rw [parseSearchQuery_eq]
    rfl
  rw [flat] at pin
  simp only [candidateFilter, active, if_true, flat, queryTokens_joinStages]
  obtain ⟨token, inside, isPin⟩ := List.any_eq_true.mp pin
  exact List.any_eq_true.mpr ⟨token, List.mem_flatMap.mpr ⟨stage, earlier, inside⟩, isPin⟩

theorem direct_extension_search_honours :
    HitsSatisfyEveryStage .utc .windows 1800000000 [] (lit "/inside /txt /2026 warranty") :=
  (hitsSatisfyEveryStage_iff .utc .windows 1800000000 [] (lit "/inside /txt /2026 warranty")
    (by decide +kernel)).mpr (by decide +kernel)

/-- The constraint written in the last stage is never applied. -/
theorem drilled_extension_ignored :
    IsContentQuery .utc .windows 1800000000 [] (lit "project /; /inside /txt warranty") ∧
      ¬ HitsSatisfyEveryStage .utc .windows 1800000000 [] (lit "project /; /inside /txt warranty") := by
  refine ⟨by decide +kernel, fun kept => ?_⟩
  let file : FileInfo := ⟨lit "project.md", lit "md", false, 0⟩
  let impl : Impl := ⟨false, true, [], some (soleRuntime [] file (lit "/d/project.md"))⟩
  have outside : ∃ hit ∈ (search .utc .windows 1800000000 impl
      (lit "project /; /inside /txt warranty") 0).items, True := by
    decide +kernel
  obtain ⟨hit, member, -⟩ := outside
  have held := kept impl _ (fun _ => file) rfl rfl (soleRuntime_truthful (by decide) (by decide)) 0
    hit member (lit "/inside /txt warranty") (by decide +kernel)
  revert held
  decide +kernel

end Promise
end Such.RuntimeClient
