import Such.Ui.SearchDialect.Tokens

/-! A Drill Search query stage by stage. The parser flattens all stages into one text; the
filter it reads is the merge of the filters of the single stages. -/
namespace Such.SearchDialect
open ByteText CivilTime

/-- Bounds of the later range where it has them. -/
def DateRange.orElse (later earlier : DateRange) : DateRange :=
  ⟨later.afterUnixSeconds.or earlier.afterUnixSeconds,
    later.beforeUnixSeconds.or earlier.beforeUnixSeconds⟩

/-- The filters of several stages as one: texts and extensions side by side, each time bound
from the last stage that sets it. -/
def mergeStages (stages : List SearchFilter) : SearchFilter where
  text := joinWords ((stages.map (·.text)).filter (!·.isEmpty))
  extensions := (stages.flatMap (·.extensions)).foldl addExtension []
  detailTerms := (stages.tail.map (·.text)).filter (!·.isEmpty)
  modified := ⟨(stages.filterMap (·.modified.afterUnixSeconds)).getLast?,
    (stages.filterMap (·.modified.beforeUnixSeconds)).getLast?⟩
  pinnedOnly := stages.any (·.pinnedOnly)
  scope := if stages.any (·.scope = .content) then .content else .file

section Merging
variable (zone : Zone) (dialect : PlatformDialect) (now : Int) (observed : List Bytes)

/-- A date token sets the same bounds whatever range it meets. -/
theorem applyDateToken_orElse (later earlier : DateRange) (body : Bytes) :
    applyDateToken zone (later.orElse earlier) body now =
      (applyDateToken zone later body now).orElse earlier := by
  simp only [applyDateToken]
  repeat' split
  all_goals simp [DateRange.orElse]

theorem dateRange_orElse (start : DateRange) (bodies : List Bytes) :
    dateRange zone now start bodies = (dateRange zone now {} bodies).orElse start := by
  induction bodies using List.reverseRecOn with
  | nil => simp [dateRange, DateRange.orElse]
  | append_singleton bodies body ih =>
    have last : ∀ start, dateRange zone now start (bodies ++ [body]) =
        applyDateToken zone (dateRange zone now start bodies) body now := by
      intro start
      rw [dateRange_append, dateRange, List.foldl_cons, List.foldl_nil]
    rw [last, last, ih, applyDateToken_orElse]

theorem getLast?_filterMap_concat {α β : Type} (f : α → Option β) (xs : List α) (x : α) :
    ((xs ++ [x]).filterMap f).getLast? = (f x).or (xs.filterMap f).getLast? := by
  cases set : f x <;> simp [set]

/-- Over several runs of tokens each bound is that of the last run with one. -/
theorem dateRange_flatMap (runs : List (List Bytes)) :
    dateRange zone now {} (runs.flatMap (tokenDates zone dialect observed)) =
      ⟨(runs.filterMap fun tokens => (dateRange zone now {}
          (tokenDates zone dialect observed tokens)).afterUnixSeconds).getLast?,
        (runs.filterMap fun tokens => (dateRange zone now {}
          (tokenDates zone dialect observed tokens)).beforeUnixSeconds).getLast?⟩ := by
  induction runs using List.reverseRecOn with
  | nil => rfl
  | append_singleton runs tokens ih =>
    rw [List.flatMap_append, List.flatMap_singleton, dateRange_append, dateRange_orElse, ih,
      getLast?_filterMap_concat, getLast?_filterMap_concat]
    rfl

/-- Dropping later duplicates once more changes nothing. -/
theorem foldl_addExtension_dedup (start exts : List Bytes) :
    (exts.foldl addExtension []).foldl addExtension start = exts.foldl addExtension start := by
  induction exts using List.reverseRecOn with
  | nil => rfl
  | append_singleton exts ext ih =>
    rw [List.foldl_concat, List.foldl_concat, ← ih]
    by_cases known : ext ∈ exts
    · have first : ext ∈ exts.foldl addExtension [] := mem_foldl_addExtension.mpr (.inr known)
      have again : ext ∈ exts.foldl addExtension start := mem_foldl_addExtension.mpr (.inr known)
      rw [addExtension, if_pos (by simpa using first), ih, addExtension,
        if_pos (by simpa using again)]
    · have first : ext ∉ exts.foldl addExtension [] := by simpa [mem_foldl_addExtension] using known
      rw [addExtension, if_neg (by simpa using first), List.foldl_concat]

theorem foldl_addExtension_flatMap (runs : List (List Bytes)) (start : List Bytes) :
    (runs.flatMap fun exts => exts.foldl addExtension []).foldl addExtension start =
      runs.flatten.foldl addExtension start := by
  induction runs generalizing start with
  | nil => rfl
  | cons exts runs ih =>
    rw [List.flatMap_cons, List.foldl_append, foldl_addExtension_dedup, ih, List.flatten_cons,
      List.foldl_append]

theorem flatMap_words_queryStages (query : Bytes) :
    (queryStages query).flatMap words = queryTokens query := by
  rw [queryStages_eq]
  exact flatMap_words_trim (splitPair 47 59 query)

/-- A stage has no stage mark of its own. -/
theorem parseSearchQuery_stage {query stage : Bytes} (member : stage ∈ queryStages query) :
    parseSearchQuery zone dialect now observed stage =
      tokenFilter zone dialect now observed (words stage) := by
  rw [queryStages_eq] at member
  obtain ⟨piece, split, rfl⟩ := List.mem_map.mp member
  exact parseSearchQuery_of_noPair zone dialect now observed
    ((splitPair_noPair split).mono (infix_trim piece))

/-- Several runs of words read together give the merge of what each gives alone. -/
theorem tokenFilter_flatten (runs : List (List Bytes)) (isWord : ∀ ts ∈ runs, ∀ t ∈ ts, IsWord t) :
    { tokenFilter zone dialect now observed runs.flatten with
      detailTerms := (mergeStages (runs.map (tokenFilter zone dialect now observed))).detailTerms } =
        mergeStages (runs.map (tokenFilter zone dialect now observed)) := by
  have texts : tokenTexts zone dialect observed runs.flatten =
      (runs.map (tokenTexts zone dialect observed)).flatten := by
    rw [tokenTexts, List.filter_flatten]
    rfl
  have exts : tokenExtensions zone dialect observed runs.flatten =
      (runs.map (tokenExtensions zone dialect observed)).flatten := by
    rw [tokenExtensions, List.filterMap_flatten]
    rfl
  have dates : tokenDates zone dialect observed runs.flatten =
      runs.flatMap (tokenDates zone dialect observed) := by
    rw [tokenDates, List.filterMap_flatten]
    rfl
  have filled : ∀ ts ∈ runs.map (tokenTexts zone dialect observed), ∀ t ∈ ts, t ≠ [] := by
    intro _ member t inside
    obtain ⟨ts, found, rfl⟩ := List.mem_map.mp member
    exact (isWord ts found t (List.mem_of_mem_filter inside)).1
  have joined := joinWords_flatten filled
  have merged := foldl_addExtension_flatMap (runs.map (tokenExtensions zone dialect observed)) []
  have bounds := dateRange_flatMap zone dialect now observed runs
  have pins : tokensPin zone dialect observed runs.flatten =
      runs.any (tokensPin zone dialect observed) := by
    rw [tokensPin, List.any_flatten]
    rfl
  have insides : tokensInside zone dialect observed runs.flatten =
      runs.any (tokensInside zone dialect observed) := by
    rw [tokensInside, List.any_flatten]
    rfl
  have scopes : ∀ ts, decide ((tokenFilter zone dialect now observed ts).scope = .content) =
      tokensInside zone dialect observed ts := by
    intro ts
    cases inside : tokensInside zone dialect observed ts <;> simp [tokenFilter, inside]
  rw [mergeStages, tokenFilter, texts, joined, exts, ← merged, dates, bounds, pins, insides]
  simp only [List.map_map, List.flatMap_map, List.filterMap_map, List.any_map, Function.comp_def,
    scopes]
  rfl

/-- The meaning of a Drill Search query: the merge of what its stages mean alone. -/
theorem parseSearchQuery_eq_mergeStages (query : Bytes) :
    parseSearchQuery zone dialect now observed query =
      mergeStages ((queryStages query).map (parseSearchQuery zone dialect now observed)) := by
  have alone : (queryStages query).map (parseSearchQuery zone dialect now observed) =
      ((queryStages query).map words).map (tokenFilter zone dialect now observed) := by
    rw [List.map_map]
    exact List.map_congr_left fun stage member =>
      parseSearchQuery_stage zone dialect now observed member
  have isWord : ∀ ts ∈ (queryStages query).map words, ∀ t ∈ ts, IsWord t := by
    intro _ member t inside
    obtain ⟨stage, -, rfl⟩ := List.mem_map.mp member
    exact words_isWord inside
  rw [alone, ← tokenFilter_flatten zone dialect now observed _ isWord, parseSearchQuery_eq,
    ← flatMap_words_queryStages, List.flatMap]
  rw [stageTerms]
  simp [queryStages, mergeStages, Function.comp_def]

end Merging
end Such.SearchDialect
