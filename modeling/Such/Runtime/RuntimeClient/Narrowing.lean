import Such.Runtime.RuntimeClient.ContentSearch

/-! What a further Drill Search stage does to the local file filter. Terms and pins add
up, but extensions accumulate as alternatives and a date overwrites the one before. -/
namespace Such.RuntimeClient
open ByteText CivilTime SearchDialect SearchableFiles

/-- The query with one more refinement. -/
def drill (q r : Bytes) : Bytes := q ++ lit " /; " ++ r

section Stages

theorem map_trim_drill (q r : Bytes) :
    (splitPair 47 59 (drill q r)).map trim =
      (splitPair 47 59 q).map trim ++ (splitPair 47 59 (32 :: r)).map trim := by
  have spelled : drill q r = q ++ 32 :: 47 :: 59 :: 32 :: r := by
    simp only [drill]
    rw [List.append_assoc]
    rfl
  rw [spelled]
  exact map_trim_splitPair_append isSpace_blank (by decide) (by decide) q (32 :: r)

theorem queryTokens_drill (q r : Bytes) : queryTokens (drill q r) = queryTokens q ++ queryTokens r := by
  have blank : queryTokens (32 :: r) = queryTokens r := queryTokens_append_blank [] r
  rw [← blank]
  simp only [queryTokens]
  rw [← flatMap_words_trim (splitPair 47 59 (drill q r)), map_trim_drill, List.flatMap_append,
    flatMap_words_trim, flatMap_words_trim]

/-- The refinements of a query come first among those of the drilled query. -/
theorem refinements_drill (q r : Bytes) : (splitDetail (drill q r)).refinements =
    (splitDetail q).refinements ++ (splitPair 47 59 (32 :: r)).map trim := by
  simp only [splitDetail]
  rw [map_trim_drill]
  cases pieces : (splitPair 47 59 q).map trim with
  | nil => exact absurd (List.map_eq_nil_iff.mp pieces) (splitPair_ne_nil q)
  | cons primary refinements => rfl

end Stages

section Filters
variable (zone : Zone) (dialect : PlatformDialect) (now : Int) (observed : List Bytes) (q r : Bytes)

theorem stageTerms_subset_drill :
    stageTerms zone dialect now observed q ⊆ stageTerms zone dialect now observed (drill q r) := by
  simp only [stageTerms]
  rw [refinements_drill, List.map_append, List.filter_append]
  exact List.subset_append_left _ _

/-- The window the date tokens of the refinement leave of the query's. -/
def narrowedWindow : DateRange :=
  dateRange zone now (dateRange zone now {} (tokenDates zone dialect observed (queryTokens q)))
    (tokenDates zone dialect observed (queryTokens r))

/-- The refinement asks for no extension beside those of the query, and its dates, written
over the query's, stay between them; or no moment is left at all. -/
def StaysInside : Prop :=
  (narrowedWindow zone dialect now observed q r).Empty ∨
    ((tokenExtensions zone dialect observed (queryTokens q) = [] ∨
        tokenExtensions zone dialect observed (queryTokens r) ⊆
          tokenExtensions zone dialect observed (queryTokens q)) ∧
      (narrowedWindow zone dialect now observed q r).Bounds
        (dateRange zone now {} (tokenDates zone dialect observed (queryTokens q))))

instance : Decidable (StaysInside zone dialect now observed q r) :=
  inferInstanceAs (Decidable (_ ∨ ((_ ∨ ∀ ext ∈ tokenExtensions zone dialect observed (queryTokens r),
    ext ∈ tokenExtensions zone dialect observed (queryTokens q)) ∧ _)))

theorem modified_drill : (parseSearchQuery zone dialect now observed (drill q r)).modified =
    narrowedWindow zone dialect now observed q r := by
  rw [parseSearchQuery_eq]
  dsimp only [tokenFilter]
  rw [queryTokens_drill, tokenDates_append, dateRange_append]
  rfl

theorem mem_extensions_parse (query ext : Bytes) :
    ext ∈ (parseSearchQuery zone dialect now observed query).extensions ↔
      ext ∈ tokenExtensions zone dialect observed (queryTokens query) := by
  rw [parseSearchQuery_eq]
  dsimp only [tokenFilter]
  rw [mem_foldl_addExtension]
  simp only [List.not_mem_nil, false_or]

theorem mem_extensions_drill (ext : Bytes) :
    ext ∈ (parseSearchQuery zone dialect now observed (drill q r)).extensions ↔
      ext ∈ tokenExtensions zone dialect observed (queryTokens q) ∨
        ext ∈ tokenExtensions zone dialect observed (queryTokens r) := by
  rw [mem_extensions_parse, queryTokens_drill, tokenExtensions_append, List.mem_append]

theorem extensions_parse_eq_nil_iff (query : Bytes) :
    (parseSearchQuery zone dialect now observed query).extensions = [] ↔
      tokenExtensions zone dialect observed (queryTokens query) = [] := by
  simp only [List.eq_nil_iff_forall_not_mem, mem_extensions_parse]

/-- A pin survives every refinement. -/
theorem pinnedOnly_drill (pin : (parseSearchQuery zone dialect now observed q).pinnedOnly = true) :
    (parseSearchQuery zone dialect now observed (drill q r)).pinnedOnly = true := by
  rw [parseSearchQuery_eq] at pin ⊢
  dsimp only [tokenFilter] at pin ⊢
  rw [queryTokens_drill, tokensPin_append, pin, Bool.true_or]

theorem implies_drill_iff :
    Implies (parseSearchQuery zone dialect now observed (drill q r))
      (parseSearchQuery zone dialect now observed q) ↔ StaysInside zone dialect now observed q r := by
  have window : (parseSearchQuery zone dialect now observed q).modified =
      dateRange zone now {} (tokenDates zone dialect observed (queryTokens q)) := by
    rw [parseSearchQuery_eq]
    rfl
  have extensions : ((parseSearchQuery zone dialect now observed q).extensions = [] ∨
      ((parseSearchQuery zone dialect now observed (drill q r)).extensions ≠ [] ∧
        (parseSearchQuery zone dialect now observed (drill q r)).extensions ⊆
          (parseSearchQuery zone dialect now observed q).extensions)) ↔
      (tokenExtensions zone dialect observed (queryTokens q) = [] ∨
        tokenExtensions zone dialect observed (queryTokens r) ⊆
          tokenExtensions zone dialect observed (queryTokens q)) := by
    rw [extensions_parse_eq_nil_iff]
    apply or_congr_right'
    intro some
    have kept : (parseSearchQuery zone dialect now observed (drill q r)).extensions ≠ [] := by
      obtain ⟨ext, member⟩ := List.exists_mem_of_ne_nil _ some
      exact List.ne_nil_of_mem ((mem_extensions_drill zone dialect now observed q r ext).mpr (.inl member))
    simp only [ne_eq, kept, not_false_eq_true, true_and]
    constructor
    · intro inside ext member
      have drilled := inside ((mem_extensions_drill zone dialect now observed q r ext).mpr (.inr member))
      exact (mem_extensions_parse zone dialect now observed q ext).mp drilled
    · intro inside ext member
      apply (mem_extensions_parse zone dialect now observed q ext).mpr
      rcases (mem_extensions_drill zone dialect now observed q r ext).mp member with own | added
      · exact own
      · exact inside added
  simp only [Implies, StaysInside]
  rw [modified_drill, window, extensions]
  have pins := pinnedOnly_drill zone dialect now observed q r
  exact or_congr_right (and_iff_right pins)

theorem plainExtensions_parse (query : Bytes) :
    PlainExtensions (parseSearchQuery zone dialect now observed query) :=
  plain_of_readable (readable_parseSearchQuery zone dialect now observed query)

/-- A path in which every term of the filter occurs. -/
def pathOfTerms (filter : SearchFilter) : Bytes := filter.detailTerms.flatten

theorem termsOccur_pathOfTerms (filter : SearchFilter) (item : ResultItem) :
    TermsOccur filter { item with path := pathOfTerms filter } := by
  intro term member
  right
  obtain ⟨before, after, terms⟩ := List.append_of_mem member
  refine ⟨lower (item.filename ++ 10 :: before.flatten), lower after.flatten, ?_⟩
  dsimp only [pathOfTerms]
  rw [terms, List.flatten_append, List.flatten_cons]
  simp only [← lower_append, List.append_assoc, List.cons_append]

theorem searchableFilename_aTxt (extension : Bytes) :
    searchableFilename (lit "a.txt") extension = true := by
  have named : searchableFilename (lit "a.txt") [] = true := by decide +kernel
  exact named

/-- A refinement narrows the file filter exactly when it stays inside the query's
extensions and dates. -/
theorem drill_narrows_iff :
    (∀ item, passesFilter (parseSearchQuery zone dialect now observed (drill q r)) item = true →
      passesFilter (parseSearchQuery zone dialect now observed q) item = true) ↔
      StaysInside zone dialect now observed q r := by
  have plain := plainExtensions_parse zone dialect now observed
  rw [← implies_drill_iff]
  constructor
  · intro narrows
    by_contra differ
    obtain ⟨file, named, -, inside, outside⟩ :=
      exists_of_not_implies (plain (drill q r)) (plain q) (lit "a.txt") differ
    let item : ResultItem := {
      filename := file.filename, extension := file.extension, pinned := file.pinned
      modifiedUnixSeconds := file.modifiedUnixSeconds
      path := pathOfTerms (parseSearchQuery zone dialect now observed (drill q r)) }
    have searchable : searchableFilename item.filename item.extension = true := by
      change searchableFilename file.filename file.extension = true
      rw [named]
      exact searchableFilename_aTxt file.extension
    have passes := (passesFilter_iff (plain (drill q r)) item).mpr
      ⟨searchable, inside, termsOccur_pathOfTerms _ item⟩
    exact outside ((passesFilter_iff (plain q) item).mp (narrows item passes)).2.1
  · intro implies item passes
    obtain ⟨searchable, satisfied, occur⟩ := (passesFilter_iff (plain (drill q r)) item).mp passes
    apply (passesFilter_iff (plain q) item).mpr
    refine ⟨searchable, satisfies_of_implies implies satisfied, ?_⟩
    intro term member
    apply occur
    rw [parseSearchQuery_eq] at member ⊢
    exact stageTerms_subset_drill zone dialect now observed q r member

end Filters

/-- An extension in a refinement lets files of that extension in. -/
theorem drilled_extension_widens :
    ¬ ∀ item, passesFilter (parseSearchQuery .utc .windows 1800000000 [] (drill (lit "/pdf") (lit "/dwg")))
        item = true →
      passesFilter (parseSearchQuery .utc .windows 1800000000 [] (lit "/pdf")) item = true := by
  intro narrows
  have widened := narrows
    { filename := lit "plan.dwg", path := lit "/d/plan.dwg", extension := lit "dwg" }
    (by decide +kernel)
  revert widened
  decide +kernel

end Such.RuntimeClient
