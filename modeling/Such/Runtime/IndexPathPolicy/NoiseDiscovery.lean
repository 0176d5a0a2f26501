import Mathlib.Data.List.Nodup
import Such.Base.LexicalPath.Rooted
import Such.Base.PrunedWalk
import Such.Runtime.IndexPathPolicy.Keys

/-! The discovery of noise directories: the walk below a root that a plan can ask for, and what the
plan excludes after it. -/
namespace Such.IndexPathPolicy
open ByteText LexicalPath FileSystem PrunedWalk

/-- An entry that a directory iteration comes to. The tests are false where they fail. -/
structure FoundEntry where
  name : Bytes
  symlink : Bool := false
  directory : Bool := false
deriving DecidableEq, Repr

def entryPath (c : Convention) (root : Bytes) (trail : List FoundEntry) : Bytes :=
  trail.foldl (fun path entry => joinName c path entry.name) root

section Discovery
variable (platform : Platform)

def shouldSkipFixed (path : Bytes) (fixed : List Bytes) : Bool := fixed.any (pathIsWithin platform path)

/-- The fixed exclusions the walk leaves out. -/
def discoveryFixed (normalizedRoot : Bytes) (overrideMode : IndexPolicyOverride) : List Bytes :=
  match platform with
  | .posix _ => []
  | .windows host =>
    let fixed := windowsFixedExclusions host normalizedRoot
    if overrideMode == .explicitCurrentUserAppData &&
        isCurrentUserManualAppdataRoot platform normalizedRoot then
      fixed.filter fun excluded =>
        !(pathIsWithin platform normalizedRoot excluded || pathIsWithin platform excluded normalizedRoot)
    else fixed

/-- Outside the installed copy and the way down to it. -/
def apartFromInstall (path : Bytes) : Bool :=
  match platform with
  | .posix _ => true
  | .windows host =>
    let installRoot := windowsSuchInstallRoot host
    !isCurrentUserSuchInstallPath host path &&
      (installRoot.isEmpty || !pathIsWithin platform installRoot path)

def protectedFound (normalizedRoot : Bytes) (overrideMode : IndexPolicyOverride) (path : Bytes) : Bool :=
  match platform with
  | .posix _ => false
  | .windows _ =>
    !(overrideMode == .explicitCurrentUserAppData &&
        isCurrentUserManualAppdataRoot platform normalizedRoot) &&
      apartFromInstall platform path && isWindowsProtectedIndexPath path

/-- A directory that is excluded for its name or its place. -/
def blocksFound (normalizedRoot : Bytes) (overrideMode : IndexPolicyOverride) (path name : Bytes) :
    Bool :=
  isDefaultNoiseDirectoryName name && apartFromInstall platform path ||
    protectedFound platform normalizedRoot overrideMode path

/-- The walk, which a stop request or an error can end after any number of entries. It never goes
below a link. -/
def discoverFrom (normalizedRoot : Bytes) (overrideMode : IndexPolicyOverride) (fixed : List Bytes) :
    Nat → List (List FoundEntry × Rose FoundEntry) → Gathered → Gathered
  | 0, _, acc => acc
  | _, [], acc => acc
  | limit + 1, (above, .node entry children) :: rest, acc =>
    let path := entryPath platform.convention normalizedRoot (above ++ [entry])
    let fixedExcluded := shouldSkipFixed platform path fixed
    let blocked := blocksFound platform normalizedRoot overrideMode path entry.name
    let acc := if entry.directory && !entry.symlink && !fixedExcluded && blocked then
      appendUnique platform acc path else acc
    let recurses := entry.directory && !entry.symlink && !fixedExcluded && !blocked
    discoverFrom normalizedRoot overrideMode fixed limit
      ((if recurses then children.map (above ++ [entry], ·) else []) ++ rest) acc

/-- The root lies in the installed copy, where nothing is left out. -/
def rootIsInstalled (root : Bytes) : Bool :=
  match platform with
  | .posix _ => false
  | .windows host => isCurrentUserSuchInstallPath host root

/-- `found` is what an iteration of the root would find with nothing left out. -/
def discoverDefaultNoiseExclusions (found : List (Rose FoundEntry)) (limit : Nat) (root : Bytes)
    (overrideMode : IndexPolicyOverride) : List Bytes :=
  if root.isEmpty || rootIsInstalled platform root then []
  else
    let normalizedRoot := normalizedAbsolute platform root
    (discoverFrom platform normalizedRoot overrideMode
      (discoveryFixed platform normalizedRoot overrideMode) limit (found.map ([], ·)) {}).out

/-- The plan for one root with recursive discovery. -/
def planDiscovering (found : List (Rose FoundEntry)) (limit : Nat) (root : Bytes)
    (overrideMode : IndexPolicyOverride) : IndexPathPolicyPlan :=
  let plan := planDefaultIndexPolicy platform root overrideMode
  if !plan.rootAllowed then plan
  else
    { plan with exclusions :=
        ((discoverDefaultNoiseExclusions platform found limit (normalizedAbsolute platform root)
          overrideMode).foldl (appendUnique platform)
            ⟨plan.exclusions, plan.exclusions.map (pathKey platform)⟩).out }

end Discovery

section Walk
variable (platform : Platform) (normalizedRoot : Bytes) (overrideMode : IndexPolicyOverride)
  (fixed : List Bytes)

/-- The entry is one the walk looks into or excludes. -/
def considered (trail : List FoundEntry) (keep : Bool → Bool) : Bool :=
  trail.getLast?.any fun entry =>
    let path := entryPath platform.convention normalizedRoot trail
    entry.directory && !entry.symlink && !shouldSkipFixed platform path fixed &&
      keep (blocksFound platform normalizedRoot overrideMode path entry.name)

def recurses (trail : List FoundEntry) : Bool :=
  considered platform normalizedRoot overrideMode fixed trail (!·)

def reports (trail : List FoundEntry) : Bool :=
  considered platform normalizedRoot overrideMode fixed trail id

/-- The loop files the reported entries of a walk. -/
theorem discoverFrom_eq (limit : Nat) (pending : List (List FoundEntry × Rose FoundEntry))
    (acc : Gathered) : discoverFrom platform normalizedRoot overrideMode fixed limit pending acc =
      (((walk (recurses platform normalizedRoot overrideMode fixed) limit pending).filter
        (reports platform normalizedRoot overrideMode fixed)).map
          (entryPath platform.convention normalizedRoot)).foldl (appendUnique platform) acc := by
  induction limit generalizing pending acc with
  | zero => rfl
  | succ limit ih =>
    cases pending with
    | nil => rfl
    | cons p rest =>
      obtain ⟨above, entry, children⟩ := p
      simp only [discoverFrom, ih, walk, List.filter_cons, recurses, reports, considered,
        List.getLast?_concat, Option.any_some, id]
      split <;> simp_all

end Walk

section Filing
variable {platform : Platform}

/-- Everything gathered is kept under its own key, each key once. -/
structure Filed (platform : Platform) (acc : Gathered) : Prop where
  keyed : acc.seen = acc.out.map (pathKey platform)
  once : acc.seen.Nodup

theorem Filed.appendUnique {acc : Gathered} (filed : Filed platform acc) (value : Bytes) :
    Filed platform (appendUnique platform acc value) := by
  simp only [IndexPathPolicy.appendUnique]
  split
  · exact filed
  · rename_i fresh
    simp only [Bool.or_eq_true, not_or, List.contains_iff_mem] at fresh
    refine ⟨by simp [filed.keyed], ?_⟩
    rw [List.nodup_append]
    refine ⟨filed.once, by simp, ?_⟩
    rintro key member _ last rfl
    exact fresh.2 (List.mem_singleton.mp last ▸ member)

theorem mem_seen_appendUnique {acc : Gathered} {value key : Bytes} :
    key ∈ (appendUnique platform acc value).seen ↔
      key ∈ acc.seen ∨ key ≠ [] ∧ pathKey platform (normalizedAbsolute platform value) = key := by
  simp only [appendUnique]
  split
  · rename_i old
    simp only [Bool.or_eq_true, List.isEmpty_iff, List.contains_iff_mem] at old
    refine ⟨.inl, fun found => found.elim id ?_⟩
    rintro ⟨filled, rfl⟩
    exact old.resolve_left filled
  · rename_i fresh
    simp only [Bool.or_eq_true, List.isEmpty_iff, not_or] at fresh
    simp only [List.mem_append, List.mem_singleton]
    refine or_congr Iff.rfl ⟨?_, fun found => found.2.symm⟩
    rintro rfl
    exact ⟨fresh.1, rfl⟩

theorem mem_out_appendUnique {acc : Gathered} {value x : Bytes}
    (member : x ∈ (appendUnique platform acc value).out) :
    x ∈ acc.out ∨ x = normalizedAbsolute platform value := by
  simp only [appendUnique] at member
  split at member
  · exact .inl member
  · simpa using member

/-- What filing some paths comes to. -/
structure Files (platform : Platform) (acc : Gathered) (values : List Bytes) (last : Gathered) : Prop where
  filed : Filed platform last
  seen : ∀ key, key ∈ last.seen ↔ key ∈ acc.seen ∨
    key ≠ [] ∧ ∃ value ∈ values, pathKey platform (normalizedAbsolute platform value) = key
  out : ∀ x ∈ last.out, x ∈ acc.out ∨ ∃ value ∈ values, x = normalizedAbsolute platform value

theorem foldl_appendUnique_files {acc : Gathered} (filed : Filed platform acc) (values : List Bytes) :
    Files platform acc values (values.foldl (appendUnique platform) acc) := by
  induction values generalizing acc with
  | nil => exact ⟨filed, by simp, fun x member => .inl member⟩
  | cons value values ih =>
    obtain ⟨filed', seen, out⟩ := ih (filed.appendUnique value)
    refine ⟨filed', fun key => ?_, fun x member => ?_⟩
    · rw [List.foldl_cons, seen, mem_seen_appendUnique]
      simp only [List.mem_cons, exists_eq_or_imp, and_or_left, or_assoc]
    · rcases out x member with old | ⟨later, among, same⟩
      · rcases mem_out_appendUnique old with old | same
        · exact .inl old
        · exact .inr ⟨value, List.mem_cons_self, same⟩
      · exact .inr ⟨later, List.mem_cons_of_mem _ among, same⟩

theorem foldl_appendUnique_prefix (acc : Gathered) (values : List Bytes) :
    acc.out <+: (values.foldl (appendUnique platform) acc).out := by
  induction values generalizing acc with
  | nil => exact List.prefix_refl _
  | cons value values ih =>
    refine .trans ?_ (ih _)
    simp only [IndexPathPolicy.appendUnique]
    split
    · exact List.prefix_refl _
    · exact List.prefix_append _ _

/-- A discovery that is stopped or fails has found the first part of what it would have found. -/
theorem interrupted_discovery_prefix (found : List (Rose FoundEntry)) (limit more : Nat)
    (root : Bytes) (overrideMode : IndexPolicyOverride) :
    discoverDefaultNoiseExclusions platform found limit root overrideMode <+:
      discoverDefaultNoiseExclusions platform found (limit + more) root overrideMode := by
  simp only [discoverDefaultNoiseExclusions, discoverFrom_eq]
  split
  · exact List.prefix_refl _
  · obtain ⟨later, longer⟩ := walk_prefix (recurses platform (normalizedAbsolute platform root)
      overrideMode (discoveryFixed platform (normalizedAbsolute platform root) overrideMode))
      limit more (found.map ([], ·))
    rw [← longer, List.filter_append, List.map_append, List.foldl_append]
    exact foldl_appendUnique_prefix _ _

end Filing

section Posix

/-- What lies below a directory: names that the system allows, one entry for each path, and nothing
below a file or a link. -/
structure Listing (found : List (Rose FoundEntry)) : Prop where
  named : ∀ trail, Occurs found trail → ∀ entry ∈ trail, FileSystem.IsName entry.name
  single : ∀ trail other, Occurs found trail → Occurs found other →
    trail.map (·.name) = other.map (·.name) → trail = other
  above : ∀ trail, Occurs found trail → ∀ entry ∈ trail.dropLast,
    entry.directory = true ∧ entry.symlink = false

/-- A directory that is called like one of those that no index wants. -/
def isNoise (entry : FoundEntry) : Bool :=
  entry.directory && !entry.symlink && isDefaultNoiseDirectoryName entry.name

variable {absolute : Bytes → Option Bytes} {found : List (Rose FoundEntry)} {limit : Nat}
  {root : Bytes} {overrideMode : IndexPolicyOverride} {top : Loc} {slash : Bool}
  {trail other : List FoundEntry}

theorem exists_trail_names (named : ∀ entry ∈ trail, FileSystem.IsName entry.name) :
    ∃ names : Loc, names.map Name.bytes = trail.map (·.name) := by
  obtain ⟨names, same⟩ := @exists_names (trail.map (·.name)) fun c member => by
    obtain ⟨entry, among, rfl⟩ := List.mem_map.mp member
    exact named entry among
  exact ⟨names, same.symm⟩

theorem entryPath_rooted (below : slash = true → top ≠ []) {names : Loc} (filled : names ≠ [])
    (same : names.map Name.bytes = trail.map (·.name)) :
    entryPath .posix (rootedText top slash) trail = rootedText (top ++ names) false := by
  induction trail generalizing top slash names with
  | nil => exact absurd (List.map_eq_nil_iff.mp same) filled
  | cons entry trail ih =>
    cases names with
    | nil => exact absurd rfl filled
    | cons n names =>
      obtain ⟨name, rest⟩ : n.bytes = entry.name ∧ names.map Name.bytes = trail.map (·.name) :=
        List.cons.inj same
      have step : entryPath .posix (rootedText top slash) (entry :: trail) =
          entryPath .posix (rootedText (top ++ [n]) false) trail := by
        rw [entryPath, List.foldl_cons, ← name, joinName_rootedText below]
        rfl
      rw [step]
      by_cases last : names = []
      · subst last
        have none : trail = [] := by simpa using rest.symm
        rw [none]
        rfl
      · rw [ih (by simp) last rest, List.append_assoc, List.singleton_append]

/-- Files are taken under names; the exclusions of a walk contain what goes on with their names. -/
theorem pathIsWithin_entry (listing : Listing found) (below : slash = true → top ≠ [])
    (occurs : Occurs found trail) (occurs' : Occurs found other) :
    pathIsWithin (.posix absolute) (entryPath .posix (rootedText top slash) trail)
        (entryPath .posix (rootedText top slash) other) = true ↔ other <+: trail := by
  obtain ⟨names, same⟩ := exists_trail_names (listing.named trail occurs)
  obtain ⟨names', same'⟩ := exists_trail_names (listing.named other occurs')
  have filled : names ≠ [] := by
    rintro rfl
    exact occurs.ne_nil (by simpa using same.symm)
  have filled' : names' ≠ [] := by
    rintro rfl
    exact occurs'.ne_nil (by simpa using same'.symm)
  have key : ∀ names : Loc, pathKey (.posix absolute) (rootedText names false) =
      rootedText names false := by
    intro names
    change stripTrailing (FileSystem.generic (lexicallyNormal .posix (rootedText names false))) = _
    rw [lexicallyNormal_rootedText (by simp), generic_rootedText (by simp),
      stripTrailing_rootedText (by simp)]
  have deep : top ++ names' ≠ [] := by simp [filled']
  rw [entryPath_rooted below filled same, entryPath_rooted below filled' same', pathIsWithin, key, key,
    keyIsWithin_iff (by simp [rootedText]) (last_rootedText deep), rootedText_goesOn_iff deep,
    List.map_append, List.map_append, List.prefix_append_right_inj, same, same']
  constructor
  · intro first
    obtain ⟨front, above, short⟩ := (List.prefix_map_iff).mp first
    have front' : Occurs found front := occurs.front above (by
      rintro rfl
      exact occurs'.ne_nil (by simpa using short))
    rwa [listing.single other front occurs' front' short]
  · exact fun first => first.map _

theorem recurses_posix : recurses (.posix absolute) (rootedText top slash) overrideMode [] trail =
    trail.getLast?.any fun entry =>
      entry.directory && !entry.symlink && !isDefaultNoiseDirectoryName entry.name := by
  simp [recurses, considered, shouldSkipFixed, blocksFound, apartFromInstall, protectedFound]

theorem reports_posix : reports (.posix absolute) (rootedText top slash) overrideMode [] trail =
    trail.getLast?.any isNoise := by
  simp [reports, considered, shouldSkipFixed, blocksFound, apartFromInstall, protectedFound]
  rfl

def quiet (trail : List FoundEntry) : Bool := !trail.getLast?.any isNoise

/-- The first noise directory on its path. -/
structure Excluded (found : List (Rose FoundEntry)) (trail : List FoundEntry) : Prop where
  visited : Visited quiet [] found trail
  noisy : quiet trail = false

/-- An excluded directory lies below no other one. -/
theorem Excluded.eq_of_prefix (outer : Excluded found other) (inner : Excluded found trail)
    (first : other <+: trail) : other = trail := by
  by_contra differ
  have still : quiet other = true :=
    inner.visited.entered other first outer.visited.occurs.ne_nil differ
  rw [outer.noisy] at still
  cases still

/-- Whatever is called like noise, or lies below that, has an excluded directory above it. -/
theorem exists_excluded (occurs : Occurs found trail) :
    (∃ front, front <+: trail ∧ Excluded found front) ↔ ∃ entry ∈ trail, isNoise entry = true := by
  constructor
  · rintro ⟨front, first, -, noisy⟩
    simp only [quiet, Bool.not_eq_false', Option.any_eq_true] at noisy
    obtain ⟨entry, last, noise⟩ := noisy
    exact ⟨entry, first.subset (List.mem_of_getLast? last), noise⟩
  · rintro ⟨entry, member, noise⟩
    rcases @visited_or_blocked _ quiet [] _ _ occurs with visited | ⟨front, first, -, visited, blocked⟩
    · -- the entry is the last one: everything above a visited node is quiet
      obtain ⟨before, after, rfl⟩ := List.append_of_mem member
      refine ⟨_, List.prefix_refl _, visited, ?_⟩
      have noisy : quiet (before ++ [entry]) = false := by simp [quiet, noise]
      cases after with
      | nil => exact noisy
      | cons next rest =>
        have still : quiet (before ++ [entry]) = true :=
          visited.entered (before ++ [entry]) ⟨next :: rest, by simp⟩ (by simp) (by simp)
        rw [noisy] at still
        cases still
    · exact ⟨front, first, visited, blocked⟩

theorem Listing.exists_last (listing : Listing found) (occurs : Occurs found trail)
    (first : other <+: trail) (filled : other ≠ []) (differ : other ≠ trail) :
    ∃ entry, other.getLast? = some entry ∧ entry.directory = true ∧ entry.symlink = false := by
  obtain ⟨rest, rfl⟩ := first
  have more : rest ≠ [] := by
    rintro rfl
    exact differ (List.append_nil _).symm
  refine ⟨other.getLast filled, List.getLast?_eq_some_getLast filled, ?_⟩
  apply listing.above _ occurs
  rw [List.dropLast_append_of_ne_nil more]
  exact List.mem_append_left _ (List.getLast_mem filled)

/-- What the loop reports is what is excluded. -/
theorem visited_reports_iff (listing : Listing found) :
    (Visited (recurses (.posix absolute) (rootedText top slash) overrideMode []) [] found trail ∧
      reports (.posix absolute) (rootedText top slash) overrideMode [] trail = true) ↔
        Excluded found trail := by
  have same : ∀ front, front <+: trail → front ≠ [] → front ≠ trail → Occurs found trail →
      recurses (.posix absolute) (rootedText top slash) overrideMode [] front = quiet front := by
    intro front first filled differ occurs
    obtain ⟨entry, last, directory, link⟩ := listing.exists_last occurs first filled differ
    simp [recurses_posix, quiet, last, isNoise, directory, link]
  have noisy : reports (.posix absolute) (rootedText top slash) overrideMode [] trail = true ↔
      quiet trail = false := by
    rw [reports_posix, quiet, Bool.not_eq_false']
  rw [noisy]
  constructor
  · rintro ⟨⟨occurs, entered⟩, last⟩
    refine ⟨⟨occurs, fun front first filled differ => ?_⟩, last⟩
    rw [List.nil_append, ← same front first filled differ occurs]
    exact entered front first filled differ
  · rintro ⟨⟨occurs, entered⟩, last⟩
    refine ⟨⟨occurs, fun front first filled differ => ?_⟩, last⟩
    rw [List.nil_append, same front first filled differ occurs]
    exact entered front first filled differ

/-- Entries' paths are in normal form already, and filed under a key. -/
theorem entry_normal (keeps : ∀ v, isAbsolute v = true → absolute v = some v)
    (listing : Listing found) (below : slash = true → top ≠ []) (occurs : Occurs found trail) :
    let path := entryPath .posix (rootedText top slash) trail
    normalizedAbsolute (.posix absolute) path = path ∧ pathKey (.posix absolute) path ≠ [] := by
  obtain ⟨names, same⟩ := exists_trail_names (listing.named trail occurs)
  have filled : names ≠ [] := by
    rintro rfl
    exact occurs.ne_nil (by simpa using same.symm)
  simp only [entryPath_rooted below filled same]
  constructor
  · change lexicallyNormal .posix ((absolute (rootedText (top ++ names) false)).getD _) = _
    rw [keeps _ rfl, Option.getD_some, lexicallyNormal_rootedText (by simp)]
  · change stripTrailing (FileSystem.generic (lexicallyNormal .posix _)) ≠ []
    rw [lexicallyNormal_rootedText (by simp), generic_rootedText (by simp),
      stripTrailing_rootedText (by simp)]
    simp [rootedText]

/-- A root of a POSIX system has no exclusions but those of the discovery. -/
theorem posix_exclusions :
    (planDefaultIndexPolicy (.posix absolute) root overrideMode).exclusions = [] := by
  simp only [planDefaultIndexPolicy]
  split
  · rfl
  · split <;> rfl

/-- What the discovery finds is filed twice, which changes nothing. -/
theorem files_twice {platform : Platform} {values : List Bytes}
    (normal : ∀ v ∈ values, normalizedAbsolute platform v = v ∧ pathKey platform v ≠ []) :
    let out := (((values.foldl (appendUnique platform) {}).out).foldl (appendUnique platform) {}).out
    (∀ x ∈ out, x ∈ values) ∧ out.Nodup ∧
      ∀ v ∈ values, ∃ x ∈ out, pathKey platform x = pathKey platform v := by
  intro out
  have start : Filed platform {} := ⟨rfl, List.nodup_nil⟩
  have first := foldl_appendUnique_files start values
  have second := foldl_appendUnique_files start (values.foldl (appendUnique platform) {}).out
  have own : ∀ x ∈ (values.foldl (appendUnique platform) {}).out, x ∈ values := by
    intro x member
    obtain ⟨v, among, rfl⟩ := (first.out x member).resolve_left List.not_mem_nil
    rwa [(normal v among).1]
  have kept : ∀ x ∈ out, x ∈ values := by
    intro x member
    obtain ⟨v, among, rfl⟩ := (second.out x member).resolve_left List.not_mem_nil
    rw [(normal v (own v among)).1]
    exact own v among
  refine ⟨kept, ?_, fun v member => ?_⟩
  · have once := second.filed.once
    rw [second.filed.keyed] at once
    exact List.Nodup.of_map _ once
  · have filed : pathKey platform v ∈ (values.foldl (appendUnique platform) {}).seen :=
      (first.seen _).mpr (.inr ⟨(normal v member).2, v, member, by rw [(normal v member).1]⟩)
    rw [first.filed.keyed] at filed
    obtain ⟨y, among, same⟩ := List.mem_map.mp filed
    have again : pathKey platform v ∈
        ((values.foldl (appendUnique platform) {}).out.foldl (appendUnique platform) {}).seen :=
      (second.seen _).mpr (.inr ⟨(normal v member).2, y, among, by rw [(normal y (own y among)).1, same]⟩)
    rw [second.filed.keyed] at again
    exact List.mem_map.mp again

/-- What a plan with discovery excludes below a root. -/
structure ExcludesNoise (platform : Platform) (found : List (Rose FoundEntry))
    (path : List FoundEntry → Bytes) (exclusions : List Bytes) : Prop where
  covers : ∀ trail, Occurs found trail → ((∃ excluded ∈ exclusions,
    pathIsWithin platform (path trail) excluded = true) ↔ ∃ entry ∈ trail, isNoise entry = true)
  apart : ∀ excluded ∈ exclusions, ∀ outer ∈ exclusions,
    pathIsWithin platform excluded outer = true → excluded = outer
  once : exclusions.Nodup

/-- A walk that is not broken off excludes exactly what is called like noise or lies below that, and
no exclusion lies below another one. -/
theorem noise_excluded_exactly
    (keeps : ∀ v, isAbsolute v = true → absolute v = some v)
    (allowed : (planDefaultIndexPolicy (.posix absolute) root overrideMode).rootAllowed = true)
    (place : normalizedAbsolute (.posix absolute) root = rootedText top slash)
    (below : slash = true → top ≠ []) (listing : Listing found) (enough : sizes found ≤ limit) :
    ExcludesNoise (.posix absolute) found
      (entryPath .posix (normalizedAbsolute (.posix absolute) root))
      (planDiscovering (.posix absolute) found limit root overrideMode).exclusions := by
  let values := ((walk (recurses (.posix absolute) (rootedText top slash) overrideMode []) limit
    (found.map ([], ·))).filter (reports (.posix absolute) (rootedText top slash) overrideMode [])).map
      (entryPath .posix (rootedText top slash))
  have again : normalizedAbsolute (.posix absolute) (rootedText top slash) = rootedText top slash := by
    change lexicallyNormal .posix ((absolute (rootedText top slash)).getD _) = _
    rw [keeps _ rfl, Option.getD_some, lexicallyNormal_rootedText below]
  have planned : (planDiscovering (.posix absolute) found limit root overrideMode).exclusions =
      ((values.foldl (appendUnique (.posix absolute)) {}).out.foldl (appendUnique (.posix absolute))
        {}).out := by
    simp only [planDiscovering, allowed, Bool.not_true, Bool.false_eq_true, if_false, posix_exclusions,
      List.map_nil, place]
    rw [discoverDefaultNoiseExclusions, again]
    simp only [discoverFrom_eq]
    rfl
  have mem_values : ∀ v, v ∈ values ↔
      ∃ trail, Excluded found trail ∧ v = entryPath .posix (rootedText top slash) trail := by
    intro v
    simp only [values, List.mem_map, List.mem_filter, mem_walk_trees_iff enough,
      visited_reports_iff listing]
    exact exists_congr fun trail => and_congr_right fun _ => eq_comm
  have normal : ∀ v ∈ values, normalizedAbsolute (.posix absolute) v = v ∧
      pathKey (.posix absolute) v ≠ [] := by
    intro v member
    obtain ⟨trail, excluded, rfl⟩ := (mem_values v).mp member
    exact entry_normal keeps listing below excluded.visited.occurs
  obtain ⟨own, once, all⟩ := files_twice normal
  rw [planned, place]
  refine ⟨fun trail occurs => ?_, fun excluded member outer member' within => ?_, once⟩
  · rw [← exists_excluded occurs]
    constructor
    · rintro ⟨x, member, within⟩
      obtain ⟨front, excluded, rfl⟩ := (mem_values x).mp (own x member)
      exact ⟨front, (pathIsWithin_entry listing below occurs excluded.visited.occurs).mp within, excluded⟩
    · rintro ⟨front, first, excluded⟩
      obtain ⟨x, member, key⟩ := all _ ((mem_values _).mpr ⟨front, excluded, rfl⟩)
      refine ⟨x, member, ?_⟩
      rw [pathIsWithin, key]
      exact (pathIsWithin_entry listing below occurs excluded.visited.occurs).mpr first
  · obtain ⟨inner, excluded', rfl⟩ := (mem_values excluded).mp (own _ member)
    obtain ⟨front, excluded, rfl⟩ := (mem_values outer).mp (own _ member')
    have first := (pathIsWithin_entry listing below excluded'.visited.occurs
      excluded.visited.occurs).mp within
    rw [excluded.eq_of_prefix excluded' first]

end Posix

def directory (name : Bytes) (children : List (Rose FoundEntry)) : Rose FoundEntry :=
  .node { name, directory := true } children

/-- A source tree with two noise directories, a file and a link that are only called so, and a noise
directory inside another one. -/
def sourceTree : List (Rose FoundEntry) := [
  directory (lit "src") [directory (lit "__pycache__") [], .node { name := lit ".git" } []],
  directory (lit "node_modules") [directory (lit "pkg") [directory (lit "Node_Modules") []]],
  .node { name := lit "__pycache__", symlink := true, directory := true } []]

theorem sourceTree_listing : Listing sourceTree := by
  constructor <;> simp only [occurs_iff_mem_walk]
  · decide +kernel
  · have single : ∀ trail ∈ walk (fun _ => true) (sizes sourceTree) (sourceTree.map ([], ·)),
        ∀ other ∈ walk (fun _ => true) (sizes sourceTree) (sourceTree.map ([], ·)),
          trail.map (·.name) = other.map (·.name) → trail = other := by decide +kernel
    exact fun trail other first second => single trail first other second
  · decide +kernel

theorem source_tree_excludes_noise : ExcludesNoise (.posix some) sourceTree
    (entryPath .posix (normalizedAbsolute (.posix some) (lit "/srv/./x/")))
    (planDiscovering (.posix some) sourceTree 8 (lit "/srv/./x/") .none).exclusions :=
  @noise_excluded_exactly some sourceTree 8 (lit "/srv/./x/") .none
    [⟨lit "srv", by decide⟩, ⟨lit "x", by decide⟩] true (fun _ _ => rfl) (by decide +kernel)
    (by decide +kernel) (by decide) sourceTree_listing (by decide +kernel)

end Such.IndexPathPolicy
