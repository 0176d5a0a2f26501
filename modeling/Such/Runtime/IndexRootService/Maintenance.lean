import Mathlib.Data.List.Dedup
import Such.Runtime.IndexPathPolicy.NoisePrefix
import Such.Runtime.IndexRootService.Rollback

/-! Policy maintenance over an index whose content stays: whole runs of polls, each of
which sees only a window of the rows that mention a noise term. -/
namespace Such.IndexRootService
open ByteText LexicalPath IndexPathPolicy RuntimeClient SearchDialect CivilTime SearchableFiles

structure Catalog extends Abi where
  rows : List AbiResult

/-- What one poll meets: the clock, whether a crawl is under way, the order in which the
runtime answers and the order in which a set of prefixes is iterated. -/
structure Poll where
  zone : Zone
  now : Int
  observed : List Bytes
  indexing : Bool
  order : List AbiResult → List AbiResult
  order_perm : ∀ rows, (order rows).Perm rows
  iterate : List Bytes → List Bytes
  iterate_perm : ∀ texts, (iterate texts).Perm texts

def Poll.around (poll : Poll) : Service.Surroundings := ⟨poll.zone, poll.now, poll.iterate⟩

namespace Catalog

def mentions (text : Bytes) (row : AbiResult) : Bool :=
  occursIn text (abiText row.path) || occursIn text (abiText row.filename)

def hidden (platform : Platform) (excluded : List Bytes) (row : AbiResult) : Bool :=
  excluded.any (atOrBelow platform.convention · (abiText row.path))

/-- The rows whose path or name contains the text, but none at or below an exclusion. -/
def answer (platform : Platform) (text : Bytes) (s : Catalog) : List AbiResult :=
  s.rows.filter fun row => mentions text row && !hidden platform s.excluded row

/-- Every call succeeds. -/
def library (platform : Platform) (poll : Poll) : Library Catalog where
  view s := {
    lastError := []
    listExtensions := poll.observed
    search := fun text _ _ => .ok (poll.order (s.answer platform text))
    searchContent := none }
  addRoot root s := (true, { s with toAbi := s.toAbi.appendRoot root })
  removeRoot root s := (true, { s with toAbi := s.toAbi.dropRoot platform root })
  replaceRoots roots s := (true, { s with toAbi := s.toAbi.installRoots roots })
  listRoots s := (some s.roots, s)
  setIndexed path indexed s := (true, { s with toAbi := s.toAbi.markIndexed path indexed })
  setPinned _ _ s := (true, s)
  reindexAsync s := s
  status s := (some { indexing := poll.indexing }, s)
  generation _ := 0

end Catalog

def searchableRow (row : AbiResult) : Bool :=
  searchableFilename (abiText row.filename) (abiText row.extension)

/-- A component of the path, split as the platform splits it. -/
def Component (platform : Platform) (part path : Bytes) : Prop :=
  part ∈ fields (isSeparator platform.convention) path

/-- Below a directory of the installed copy, the product's own subtree on Windows. -/
def InstallProtected (platform : Platform) (path : Bytes) : Prop :=
  match platform with
  | .posix _ => False
  | .windows host => ∃ directory, atOrBelow .windows directory path = true ∧
      Service.prefixInInstallRoot host directory = true

namespace Service

def poll (platform : Platform) (poll : Poll) (s : Service Catalog) : Service Catalog :=
  s.scrubOneBatch platform (Catalog.library platform poll) poll.around

def run (platform : Platform) (polls : List Poll) (s : Service Catalog) : Service Catalog :=
  polls.foldl (fun s p => s.poll platform p) s

def rows (s : Service Catalog) : List AbiResult := s.runtime.runtime.rows

def excluded (s : Service Catalog) : List Bytes := s.runtime.runtime.excluded

def listedRoots (s : Service Catalog) : List Bytes := s.runtime.runtime.roots

/-- No indexed row that a search would present has a noise component. -/
def Scrubbed (platform : Platform) (s : Service Catalog) : Prop :=
  ∀ row ∈ s.rows, searchableRow row = true → Catalog.hidden platform s.excluded row = false →
    ∀ term ∈ noiseTerms, Component platform term (abiText row.path) →
      InstallProtected platform (abiText row.path)

/-- The rows a term's query would present without a limit. -/
def found (platform : Platform) (p : Poll) (term : Bytes) (s : Service Catalog) : List AbiResult :=
  (p.order (s.runtime.runtime.answer platform term)).filter searchableRow

/-- The row leads to an exclusion that has not been made. -/
def Fresh (platform : Platform) (s : Service Catalog) (term : Bytes) (row : AbiResult) : Prop :=
  ∃ noisePath, defaultNoiseDirectoryPrefix platform.convention (abiText row.path) term =
      some noisePath ∧
    noisePath ∉ s.maintenance.seenPrefixes s.maintenance.noiseTermIndex ∧
    touchesInstallRoot platform noisePath = false

/-- The state from which a poll queries its term, if it gets so far. -/
def beforeQuery (platform : Platform) (p : Poll) (s : Service Catalog) : Service Catalog :=
  (scrubFixed platform (Catalog.library platform p)
    (s.call (Loaded.status (Catalog.library platform p))).2).2

/-- Whenever there is a fresh row for the term under way, the first 512 rows hold one. -/
def WindowShows (platform : Platform) (p : Poll) (s : Service Catalog) : Prop :=
  let s := s.beforeQuery platform p
  ∀ term, noiseTerms[s.maintenance.noiseTermIndex]? = some term →
    (∃ row ∈ s.found platform p term, s.Fresh platform term row) →
      ∃ row ∈ (s.found platform p term).take 512, s.Fresh platform term row

/-- Every poll of the run shows a fresh row while there is one. -/
def Unobstructed (platform : Platform) : List Poll → Service Catalog → Prop
  | [], _ => True
  | p :: rest, s => s.WindowShows platform p ∧ Unobstructed platform rest (s.poll platform p)

end Service

/-- What the index content has to be like, apart from its size and order. -/
structure Scrubbable (platform : Platform) (rows : List AbiResult) : Prop where
  /-- On Linux a backslash of a file name may be taken for the end of a component. -/
  directories : ∀ row ∈ rows, ∀ term ∈ Service.noiseTerms, ∀ noisePath,
    defaultNoiseDirectoryPrefix platform.convention (abiText row.path) term = some noisePath →
      atOrBelow platform.convention noisePath (abiText row.path) = true
  /-- A noise directory around the installed copy is never excluded. -/
  apart : ∀ row ∈ rows, ∀ term ∈ Service.noiseTerms, ∀ noisePath,
    defaultNoiseDirectoryPrefix platform.convention (abiText row.path) term = some noisePath →
      ∀ host, platform = .windows host → Service.installRootInPrefix host noisePath = true →
        Service.prefixInInstallRoot host noisePath = true

section Query
variable {platform : Platform} {p : Poll} {s : Service Catalog}

theorem noiseTerm_cases {term : Bytes} (noise : term ∈ Service.noiseTerms) :
    term = lit "node_modules" ∨ term = lit ".git" ∨ term = lit "__pycache__" := by
  simpa [Service.noiseTerms] using noise

/-- A noise term is plain query text on every platform, at every time. -/
theorem noiseTerm_parse {term : Bytes} (noise : term ∈ Service.noiseTerms) (zone : Zone)
    (dialect : PlatformDialect) (now : Int) (observed : List Bytes) :
    (splitDetail term).active = false ∧
      parseSearchQuery zone dialect now observed term = { text := term } ∧
      cstr (compileRuntimeQuery zone dialect { text := term }) = term := by
  rcases noiseTerm_cases noise with rfl | rfl | rfl <;> cases dialect <;> exact ⟨rfl, rfl, rfl⟩

theorem passesFilter_text (text : Bytes) (item : ResultItem) :
    passesFilter { text := text } item = searchableFilename item.filename item.extension := by
  simp [passesFilter]

/-- A noise query presents the first 512 rows found. -/
theorem search_noise {term : Bytes} (noise : term ∈ Service.noiseTerms) :
    ∃ outcome, s.call (Loaded.search (Catalog.library platform p) p.around.zone s.dialect
        p.around.now term 512) = (outcome, { s with runtime := { s.runtime with error := [] } }) ∧
      outcome.error = [] ∧ outcome.items = ((s.found platform p term).take 512).map appendResult := by
  obtain ⟨inactive, parsed, compiled⟩ := noiseTerm_parse noise p.zone s.dialect p.now
    (observedExtensions (s.runtime.impl (Catalog.library platform p)))
  have files : searchLoaded p.zone s.dialect p.now
      (observedExtensions (s.runtime.impl (Catalog.library platform p))) false
      ((Catalog.library platform p).view s.runtime.runtime) term 512 =
        .ok (((s.found platform p term).take 512).map appendResult) := by
    simp only [searchLoaded]
    simp only [inactive, parsed, Bool.false_eq_true, false_and, if_false, reduceCtorEq]
    simp only [searchFiles]
    simp only [parsed, compiled]
    have kept : (fun row => passesFilter { text := term } (appendResult row)) = searchableRow :=
      funext fun row => passesFilter_text term (appendResult row)
    refine congrArg Except.ok ?_
    rw [keepRows_limit _ (by decide : ([] : List ResultItem).length < 512), List.nil_append,
      List.filter_map, ← List.map_take]
    change (((p.order _).filter fun row => passesFilter { text := term } (appendResult row)).take 512).map
      appendResult = _
    rw [kept]
    rfl
  simp only [Service.call, Loaded.search, RuntimeClient.search]
  dsimp only [Loaded.impl, Poll.around] at files ⊢
  rw [files]
  exact ⟨_, rfl, rfl, rfl⟩

end Query

/-- The rows, the roots and the course of maintenance stay; whatever is marked as handled
is excluded. -/
structure Excludes (s t : Service Catalog) : Prop where
  rows : t.rows = s.rows
  roots : t.listedRoots = s.listedRoots
  excluded : s.excluded ⊆ t.excluded
  enabled : t.maintenance.enabled = s.maintenance.enabled
  pending : t.maintenance.pending = s.maintenance.pending
  index : t.maintenance.noiseTermIndex = s.maintenance.noiseTermIndex
  seen : ∀ term noisePath, noisePath ∈ t.maintenance.seenPrefixes term →
    noisePath ∈ s.maintenance.seenPrefixes term ∨ cstr noisePath ∈ t.excluded

theorem Excludes.refl (s : Service Catalog) : Excludes s s where
  rows := rfl
  roots := rfl
  excluded := List.Subset.refl _
  enabled := rfl
  pending := rfl
  index := rfl
  seen _ _ member := .inl member

theorem Excludes.trans {s t u : Service Catalog} (first : Excludes s t) (second : Excludes t u) :
    Excludes s u where
  rows := second.rows.trans first.rows
  roots := second.roots.trans first.roots
  excluded := List.Subset.trans first.excluded second.excluded
  enabled := second.enabled.trans first.enabled
  pending := second.pending.trans first.pending
  index := second.index.trans first.index
  seen term noisePath member := by
    rcases second.seen term noisePath member with earlier | made
    · rcases first.seen term noisePath earlier with start | made
      · exact .inl start
      · exact .inr (second.excluded made)
    · exact .inr made

section Steps
variable {platform : Platform} {p : Poll}

theorem setIndexed_excludes (path : Bytes) (s : Service Catalog) :
    ∃ t, s.call (Loaded.setIndexed (Catalog.library platform p) path false) = (.ok (), t) ∧
      Excludes s t ∧ cstr path ∈ t.excluded ∧ t.maintenance = s.maintenance := by
  refine ⟨_, rfl, ⟨rfl, rfl, ?_, rfl, rfl, rfl, fun _ _ member => .inl member⟩, ?_, rfl⟩
  · exact List.subset_append_left _ _
  · exact List.mem_append_right _ (List.mem_singleton_self _)

theorem status_excludes (s : Service Catalog) :
    Excludes s (s.call (Loaded.status (Catalog.library platform p))).2 :=
  ⟨rfl, rfl, List.Subset.refl _, rfl, rfl, rfl, fun _ _ member => .inl member⟩

theorem applyFixed_excludes (budget : Nat) (s : Service Catalog) :
    Excludes s (s.applyFixed (Catalog.library platform p) budget) := by
  induction budget generalizing s with
  | zero => exact .refl s
  | succ budget ih =>
    unfold Service.applyFixed
    split
    · exact .refl s
    · rename_i path _
      let marked : Service Catalog := { s with maintenance := { s.maintenance with
        fixedIndex := s.maintenance.fixedIndex + 1 } }
      have first : Excludes s marked :=
        ⟨rfl, rfl, List.Subset.refl _, rfl, rfl, rfl, fun _ _ member => .inl member⟩
      obtain ⟨t, called, more, _⟩ := @setIndexed_excludes platform p path marked
      dsimp only
      rw [called]
      exact (first.trans more).trans (ih t)

theorem prepareFixedMaintenance_excludes {s : Service Catalog}
    (allowed : PolicyAllows platform (s.listedRoots.map cstr)) :
    (s.prepareFixedMaintenance platform (Catalog.library platform p)).1 = true ∧
      Excludes s (s.prepareFixedMaintenance platform (Catalog.library platform p)).2 := by
  obtain ⟨prepared, planned⟩ := allowed
  have listed : s.call (Loaded.roots (Catalog.library platform p)) =
      (.ok (s.listedRoots.map cstr), { s with runtime := { s.runtime with error := [] } }) := rfl
  simp only [Service.prepareFixedMaintenance]
  rw [listed]
  dsimp only
  rw [planned]
  exact ⟨rfl, rfl, rfl, List.Subset.refl _, rfl, rfl, rfl, fun _ _ member => .inl member⟩

theorem scrubFixed_excludes {s : Service Catalog}
    (allowed : PolicyAllows platform (s.listedRoots.map cstr)) :
    (s.scrubFixed platform (Catalog.library platform p)).1 = true ∧
      Excludes s (s.scrubFixed platform (Catalog.library platform p)).2 := by
  unfold Service.scrubFixed
  cases ready : s.maintenance.fixedReady with
  | true => exact ⟨rfl, applyFixed_excludes _ s⟩
  | false =>
    obtain ⟨planned, more⟩ := @prepareFixedMaintenance_excludes platform p s allowed
    refine ⟨planned, ?_⟩
    rw [if_neg Bool.false_ne_true]
    dsimp only
    rw [planned]
    exact more.trans (applyFixed_excludes _ _)

theorem applyPrefixes_excludes (term applied : Nat) (noisePaths : List Bytes) (s : Service Catalog) :
    Excludes s (s.applyPrefixes platform (Catalog.library platform p) term applied noisePaths).2 := by
  induction noisePaths generalizing applied s with
  | nil => exact .refl s
  | cons noisePath rest ih =>
    simp only [Service.applyPrefixes]
    split
    · exact ih applied s
    · obtain ⟨t, called, more, made, kept⟩ := @setIndexed_excludes platform p noisePath s
      rw [called]
      dsimp only
      let noted : Service Catalog := { t with maintenance := { t.maintenance with
        seenPrefixes := Function.update t.maintenance.seenPrefixes term
          (t.maintenance.seenPrefixes term ++ [noisePath]) } }
      have noting : Excludes t noted := by
        refine ⟨rfl, rfl, List.Subset.refl _, rfl, rfl, rfl, ?_⟩
        intro other path member
        change path ∈ Function.update t.maintenance.seenPrefixes term _ other at member
        by_cases same : other = term
        · subst same
          rw [Function.update_self, List.mem_append, List.mem_singleton] at member
          rcases member with old | rfl
          · exact .inl old
          · exact .inr made
        · rw [Function.update_of_ne same] at member
          exact .inl member
      split
      · exact more.trans noting
      · exact (more.trans noting).trans (ih _ noted)

theorem applyPrefixes_count (term applied : Nat) (noisePaths : List Bytes) (s : Service Catalog) :
    applied ≤ (s.applyPrefixes platform (Catalog.library platform p) term applied noisePaths).1 := by
  induction noisePaths generalizing applied s with
  | nil => exact le_rfl
  | cons noisePath rest ih =>
    simp only [Service.applyPrefixes]
    split
    · exact ih applied s
    · obtain ⟨t, called, _⟩ := @setIndexed_excludes platform p noisePath s
      rw [called]
      dsimp only
      split
      · exact Nat.le_succ applied
      · exact (Nat.le_succ applied).trans (ih _ _)

/-- A path that is neither handled nor held back is excluded, or the limit is reached. -/
theorem applyPrefixes_applies {term applied : Nat} {noisePaths : List Bytes} {s : Service Catalog}
    {noisePath : Bytes} (member : noisePath ∈ noisePaths)
    (unseen : noisePath ∉ s.maintenance.seenPrefixes term)
    (free : Service.touchesInstallRoot platform noisePath = false) :
    applied < (s.applyPrefixes platform (Catalog.library platform p) term applied noisePaths).1 := by
  induction noisePaths generalizing applied s with
  | nil => cases member
  | cons head rest ih =>
    simp only [Service.applyPrefixes]
    split
    · rename_i skipped
      rcases List.mem_cons.mp member with rfl | later
      · rw [free, Bool.or_false, List.contains_iff_mem] at skipped
        exact absurd skipped unseen
      · exact ih later unseen
    · obtain ⟨t, called, _⟩ := @setIndexed_excludes platform p head s
      rw [called]
      dsimp only
      split
      · exact Nat.lt_succ_self applied
      · exact Nat.lt_of_lt_of_le (Nat.lt_succ_self applied) (applyPrefixes_count _ _ _ _)

end Steps

/-- What is left of a term's rows is held back for the sake of the installed copy. -/
def Cleared (platform : Platform) (s : Service Catalog) (term : Bytes) : Prop :=
  ∀ row ∈ s.rows, searchableRow row = true → Catalog.hidden platform s.excluded row = false →
    Component platform term (abiText row.path) →
      ∃ noisePath, defaultNoiseDirectoryPrefix platform.convention (abiText row.path) term =
          some noisePath ∧ Service.touchesInstallRoot platform noisePath = true

/-- Terms passed over are cleared, and maintenance ends behind the last one. -/
structure Progress (platform : Platform) (start s : Service Catalog) : Prop where
  rows : s.rows = start.rows
  roots : s.listedRoots = start.listedRoots
  enabled : s.maintenance.enabled = true
  seen : ∀ term noisePath, noisePath ∈ s.maintenance.seenPrefixes term → cstr noisePath ∈ s.excluded
  cleared : ∀ index term, index < s.maintenance.noiseTermIndex →
    Service.noiseTerms[index]? = some term → Cleared platform s term
  finished : s.maintenance.pending = false →
    Service.noiseTerms.length ≤ s.maintenance.noiseTermIndex

theorem hidden_mono {platform : Platform} {less more : List Bytes} (grown : less ⊆ more)
    {row : AbiResult} (shown : Catalog.hidden platform more row = false) :
    Catalog.hidden platform less row = false := by
  simp only [Catalog.hidden] at shown ⊢
  rw [List.any_eq_false] at shown ⊢
  intro path member
  exact shown path (grown member)

section Runs
variable {platform : Platform} {p : Poll} {start s t : Service Catalog}

theorem Cleared.excludes {term : Bytes} (cleared : Cleared platform s term) (more : Excludes s t) :
    Cleared platform t term := by
  intro row member searchable shown component
  rw [more.rows] at member
  exact cleared row member searchable (hidden_mono more.excluded shown) component

theorem Progress.excludes (progress : Progress platform start s) (more : Excludes s t) :
    Progress platform start t where
  rows := more.rows.trans progress.rows
  roots := more.roots.trans progress.roots
  enabled := more.enabled.trans progress.enabled
  seen term noisePath member := by
    rcases more.seen term noisePath member with earlier | made
    · exact more.excluded (progress.seen term noisePath earlier)
    · exact made
  cleared index term passed named := by
    rw [more.index] at passed
    exact (progress.cleared index term passed named).excludes more
  finished idle := by
    rw [more.pending] at idle
    exact more.index ▸ progress.finished idle

theorem noiseTerm_plain {term : Bytes} (noise : term ∈ Service.noiseTerms) :
    isDefaultNoiseDirectoryName term = true ∧ ∀ b ∈ term, isSeparator .windows b = false := by
  rcases noiseTerm_cases noise with rfl | rfl | rfl <;> decide +kernel

/-- Without a fresh row the term is cleared. -/
theorem cleared_of_no_fresh {term : Bytes} (progress : Progress platform start s)
    (scrubbable : Scrubbable platform start.rows) (noise : term ∈ Service.noiseTerms)
    (none : ¬ ∃ row ∈ s.found platform p term, s.Fresh platform term row) :
    Cleared platform s term := by
  intro row member searchable shown component
  obtain ⟨plainName, plainBytes⟩ := noiseTerm_plain noise
  obtain ⟨noisePath, found⟩ := noise_has_prefix plainName plainBytes component
  refine ⟨noisePath, found, ?_⟩
  by_contra free
  rw [Bool.not_eq_true] at free
  have mentioned : Catalog.mentions term row = true := by
    simp only [Catalog.mentions, occursIn]
    rw [Bool.or_eq_true]
    exact .inl (decide_eq_true (infix_fields component))
  have answered : row ∈ s.found platform p term := by
    simp only [Service.found, Catalog.answer]
    rw [List.mem_filter, (p.order_perm _).mem_iff, List.mem_filter]
    refine ⟨⟨member, ?_⟩, searchable⟩
    change (Catalog.mentions term row && !Catalog.hidden platform s.excluded row) = true
    rw [mentioned, shown]
    rfl
  apply none
  refine ⟨row, answered, noisePath, found, ?_, free⟩
  intro handled
  have excluded := progress.seen _ _ handled
  have text : 0 ∉ noisePath := by
    obtain ⟨tail, split, _⟩ := noisePrefix_boundary found
    intro nul
    apply notMem_abiText row.path
    rw [split]
    exact List.mem_append_left _ nul
  rw [cstr_of_notMem text] at excluded
  have below := scrubbable.directories row (progress.rows ▸ member) term noise noisePath found
  simp only [Catalog.hidden] at shown
  rw [List.any_eq_false] at shown
  exact shown noisePath excluded below

theorem applyPrefixes_of_fresh {term : Bytes} {rows : List AbiResult}
    (fresh : ∃ row ∈ rows, s.Fresh platform term row) :
    (s.applyPrefixes platform (Catalog.library platform p) s.maintenance.noiseTermIndex 0
      (Service.noisePrefixes platform p.around term (rows.map appendResult))).1 ≠ 0 := by
  obtain ⟨row, member, noisePath, found, unseen, free⟩ := fresh
  refine (applyPrefixes_applies ?_ unseen free).ne'
  apply (p.iterate_perm _).mem_iff.mpr
  rw [List.mem_dedup, List.mem_filterMap]
  exact ⟨appendResult row, List.mem_map_of_mem member, found⟩

/-- One batch of rows: either something fresh is excluded, or the term is cleared. -/
theorem excludeRows_progress {term : Bytes} (progress : Progress platform start s)
    (scrubbable : Scrubbable platform start.rows)
    (named : Service.noiseTerms[s.maintenance.noiseTermIndex]? = some term)
    (shows : (∃ row ∈ s.found platform p term, s.Fresh platform term row) →
      ∃ row ∈ (s.found platform p term).take 512, s.Fresh platform term row) :
    Progress platform start (s.excludeRows platform (Catalog.library platform p) p.around term
      (((s.found platform p term).take 512).map appendResult)) := by
  unfold Service.excludeRows
  dsimp only
  have more := @applyPrefixes_excludes platform p s.maintenance.noiseTermIndex 0
    (Service.noisePrefixes platform p.around term
      (((s.found platform p term).take 512).map appendResult)) s
  have applies := @applyPrefixes_of_fresh platform p s term ((s.found platform p term).take 512)
  revert more applies
  generalize s.applyPrefixes platform (Catalog.library platform p) s.maintenance.noiseTermIndex 0
    (Service.noisePrefixes platform p.around term
      (((s.found platform p term).take 512).map appendResult)) = result
  obtain ⟨applied, t⟩ := result
  intro more applies
  have kept := progress.excludes more
  refine ⟨kept.rows, kept.roots, kept.enabled, kept.seen, ?_, ?_⟩
  · intro index other passed place
    by_cases earlier : index < s.maintenance.noiseTermIndex
    · exact kept.cleared index other (more.index ▸ earlier) place
    · -- The term is passed over only now, so its window held nothing fresh.
      have noise : term ∈ Service.noiseTerms := List.mem_of_getElem? named
      have none : ¬ ∃ row ∈ s.found platform p term, s.Fresh platform term row := by
        intro some
        obtain ⟨row, member, fresh⟩ := shows some
        have applied_ne := applies ⟨row, member, fresh⟩
        have nonempty : (((s.found platform p term).take 512).map appendResult).isEmpty = false :=
          List.isEmpty_eq_false_iff.mpr (List.ne_nil_of_mem (List.mem_map_of_mem member))
        have stay : (applied == 0) = false := beq_eq_false_iff_ne.mpr applied_ne
        dsimp only at passed
        rw [nonempty, stay] at passed
        exact earlier passed
      have same : index = s.maintenance.noiseTermIndex := by
        dsimp only at passed
        split at passed <;> omega
      rw [same, named] at place
      cases place
      have cleared : Cleared platform t term :=
        (cleared_of_no_fresh progress scrubbable noise none).excludes more
      exact cleared
  · intro idle
    dsimp only at idle ⊢
    rcases Bool.and_eq_false_iff.mp idle with ended | last
    · have behind := kept.finished ended
      have inside := (List.getElem?_eq_some_iff.mp named).1
      rw [more.index] at behind
      omega
    · exact Nat.le_of_not_lt (of_decide_eq_false last)

/-- One query of a term: either it finds something fresh, or the term is cleared. -/
theorem scrubTerm_progress (progress : Progress platform start s)
    (scrubbable : Scrubbable platform start.rows)
    (shows : ∀ term, Service.noiseTerms[s.maintenance.noiseTermIndex]? = some term →
      (∃ row ∈ s.found platform p term, s.Fresh platform term row) →
        ∃ row ∈ (s.found platform p term).take 512, s.Fresh platform term row) :
    Progress platform start (s.scrubTerm platform (Catalog.library platform p) p.around) := by
  simp only [Service.scrubTerm]
  split
  · rename_i named
    refine ⟨progress.rows, progress.roots, progress.enabled, progress.seen, progress.cleared, ?_⟩
    intro _
    exact List.getElem?_eq_none_iff.mp named
  · rename_i term named
    obtain ⟨outcome, called, quiet, items⟩ :=
      @search_noise platform p s term (List.mem_of_getElem? named)
    rw [called]
    dsimp only
    rw [quiet, items]
    have cleared : Excludes s { s with runtime := { s.runtime with error := [] } } :=
      ⟨rfl, rfl, List.Subset.refl _, rfl, rfl, rfl, fun _ _ member => .inl member⟩
    exact excludeRows_progress (progress.excludes cleared) scrubbable named (shows term named)

/-- One poll of a run. -/
theorem poll_progress (progress : Progress platform start s)
    (allowed : PolicyAllows platform (start.listedRoots.map cstr))
    (scrubbable : Scrubbable platform start.rows) (shows : s.WindowShows platform p) :
    Progress platform start (s.poll platform p) := by
  simp only [Service.poll, Service.scrubOneBatch]
  split
  · exact progress
  · have asked := progress.excludes (@status_excludes platform p s)
    unfold Service.WindowShows Service.beforeQuery at shows
    revert asked shows
    dsimp only
    generalize s.call (Loaded.status (Catalog.library platform p)) = result
    obtain ⟨status, t⟩ := result
    intro shows asked
    dsimp only at shows asked ⊢
    split
    · exact asked
    · have planned : PolicyAllows platform (t.listedRoots.map cstr) := asked.roots ▸ allowed
      have fixed := @scrubFixed_excludes platform p t planned
      simp only [Service.scrubIdle]
      revert fixed shows
      generalize t.scrubFixed platform (Catalog.library platform p) = result
      obtain ⟨ready, u⟩ := result
      rintro shows ⟨rfl, more⟩
      dsimp only at shows more ⊢
      rw [if_neg (by decide)]
      split
      · exact asked.excludes more
      · exact scrubTerm_progress (asked.excludes more) scrubbable shows

theorem run_progress {polls : List Poll} (progress : Progress platform start s)
    (allowed : PolicyAllows platform (start.listedRoots.map cstr))
    (scrubbable : Scrubbable platform start.rows) (shown : s.Unobstructed platform polls) :
    Progress platform start (s.run platform polls) := by
  induction polls generalizing s with
  | nil => exact progress
  | cons p rest ih => exact ih (poll_progress progress allowed scrubbable shown.1) shown.2

theorem requestMaintenance_progress (enabled : start.maintenance.enabled = true) :
    Progress platform start start.requestMaintenance := by
  simp only [Service.requestMaintenance]
  rw [enabled]
  refine ⟨rfl, rfl, rfl, ?_, ?_, ?_⟩
  · intro term noisePath member
    cases member
  · intro index term passed _
    exact absurd passed (Nat.not_lt_zero index)
  · intro idle
    cases idle

theorem Progress.scrubbed (progress : Progress platform start s)
    (scrubbable : Scrubbable platform start.rows) (idle : s.maintenance.pending = false) :
    s.Scrubbed platform := by
  intro row member searchable shown term noise component
  obtain ⟨index, inside, named⟩ := List.getElem_of_mem noise
  have passed : index < s.maintenance.noiseTermIndex := inside.trans_le (progress.finished idle)
  obtain ⟨noisePath, found, touches⟩ := progress.cleared index term passed
    (List.getElem?_eq_some_iff.mpr ⟨inside, named⟩) row member searchable shown component
  have listed := progress.rows ▸ member
  cases platform with
  | posix absolute => cases touches
  | windows host =>
    refine ⟨noisePath, scrubbable.directories row listed term noise noisePath found, ?_⟩
    simp only [Service.touchesInstallRoot] at touches
    rw [Bool.and_eq_true, Bool.or_eq_true] at touches
    rcases touches.2 with within | covers
    · exact within
    · exact scrubbable.apart row listed term noise noisePath found host rfl covers

/-- Nothing is cut off while the index holds no more rows than a window. -/
theorem unobstructed_of_few {polls : List Poll} (progress : Progress platform start s)
    (allowed : PolicyAllows platform (start.listedRoots.map cstr))
    (scrubbable : Scrubbable platform start.rows) (few : start.rows.length ≤ 512) :
    s.Unobstructed platform polls := by
  induction polls generalizing s with
  | nil => trivial
  | cons p rest ih =>
    have shows : s.WindowShows platform p := by
      have asked := progress.excludes (@status_excludes platform p s)
      have planned : PolicyAllows platform
          ((s.call (Loaded.status (Catalog.library platform p))).2.listedRoots.map cstr) :=
        asked.roots ▸ allowed
      have before := asked.excludes (@scrubFixed_excludes platform p _ planned).2
      intro term _ fresh
      have short : ((s.beforeQuery platform p).found platform p term).length ≤ 512 := by
        simp only [Service.found, Catalog.answer]
        refine (List.length_filter_le _ _).trans ?_
        rw [(p.order_perm _).length_eq]
        refine (List.length_filter_le _ _).trans ?_
        exact (congrArg List.length before.rows).trans_le few
      rwa [List.take_of_length_le short]
    exact ⟨shows, ih (poll_progress progress allowed scrubbable shows)⟩

end Runs

/-- A run of maintenance in which every window shows what is still to be excluded leaves
no searchable row under a noise directory. -/
theorem maintenance_complete (platform : Platform) (start : Service Catalog) (polls : List Poll)
    (enabled : start.maintenance.enabled = true)
    (allowed : PolicyAllows platform (start.listedRoots.map cstr))
    (scrubbable : Scrubbable platform start.rows)
    (shown : start.requestMaintenance.Unobstructed platform polls)
    (idle : (start.requestMaintenance.run platform polls).maintenance.pending = false) :
    (start.requestMaintenance.run platform polls).Scrubbed platform :=
  (run_progress (requestMaintenance_progress enabled) allowed scrubbable shown).scrubbed scrubbable idle

def namedRow (id : UInt64) (name path : String) : AbiResult where
  fileId := id
  filename := some (lit name)
  path := some (lit path)
  extension := none
  pinned := 0
  indexed := 1
  authorized := 1
  modifiedUnixSeconds := 0
  sizeBytes := 0

/-- An idle runtime that answers in the order of its rows. -/
def plainPoll : Poll where
  zone := Zone.utc
  now := 0
  observed := []
  indexing := false
  order := id
  order_perm := List.Perm.refl
  iterate := id
  iterate_perm := List.Perm.refl

def indexOf (rows : List AbiResult) : Service Catalog where
  runtime := { runtime := { rows := rows } }
  dialect := .unixLike

/-- One file under a noise directory: the second query of its term finds nothing more. -/
theorem one_noise_file_scrubbed :
    ((indexOf [namedRow 2 "config.txt" "/r/.git/config.txt"]).requestMaintenance.run (.posix some)
      (List.replicate 4 plainPoll)).Scrubbed (.posix some) := by
  have allowed : PolicyAllows (.posix some)
      ((indexOf [namedRow 2 "config.txt" "/r/.git/config.txt"]).listedRoots.map cstr) := ⟨{}, rfl⟩
  have scrubbable : Scrubbable (.posix some)
      (indexOf [namedRow 2 "config.txt" "/r/.git/config.txt"]).rows := by
    constructor
    · intro row member term _ noisePath found
      rw [List.mem_singleton.mp member] at found ⊢
      exact noisePrefix_atOrBelow_posix (by decide) found
    · intro row _ term _ noisePath _ host windows
      cases windows
  apply maintenance_complete (.posix some) (indexOf [namedRow 2 "config.txt" "/r/.git/config.txt"])
    (List.replicate 4 plainPoll) rfl allowed scrubbable
  · exact unobstructed_of_few (requestMaintenance_progress rfl) allowed scrubbable (by decide)
  · decide +kernel

/-- 512 files that merely mention the term come first in every answer. -/
def decoyed : List AbiResult :=
  List.replicate 512 (namedRow 1 ".gitignore" "/r/.gitignore") ++
    [namedRow 2 "config.txt" "/r/.git/config.txt"]

/-- Maintenance ends although a searchable file still lies under a noise directory. -/
theorem decoys_end_maintenance :
    ((indexOf decoyed).requestMaintenance.run (.posix some)
        (List.replicate 3 plainPoll)).maintenance.pending = false ∧
      ¬ ((indexOf decoyed).requestMaintenance.run (.posix some)
        (List.replicate 3 plainPoll)).Scrubbed (.posix some) := by
  refine ⟨by decide +kernel, ?_⟩
  intro scrubbed
  have rows : ((indexOf decoyed).requestMaintenance.run (.posix some)
      (List.replicate 3 plainPoll)).rows = decoyed := by decide +kernel
  have excluded : ((indexOf decoyed).requestMaintenance.run (.posix some)
      (List.replicate 3 plainPoll)).excluded = [] := by decide +kernel
  refine scrubbed (namedRow 2 "config.txt" "/r/.git/config.txt") ?_ (by decide +kernel) ?_
    (lit ".git") (by decide +kernel) ?_
  · rw [rows]
    exact List.mem_append_right _ (List.mem_singleton_self _)
  · rw [excluded]
    rfl
  · simp only [Component]
    decide +kernel

end Such.IndexRootService
