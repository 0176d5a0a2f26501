import Such.Runtime.IndexPathPolicy.Split

/-! The exclusions around the installed copy leave it reachable and lose nothing else that was
covered before the splitting. -/
namespace Such.IndexPathPolicy
open ByteText LexicalPath

section Preserving
variable {host : WindowsHost} {entries : Bytes → List Bytes}

/-- Neither holds the other. -/
def Apart (host : WindowsHost) (install q : Place) : Prop :=
  pathIsWithin (.windows host) q.text install.text = false ∧
    pathIsWithin (.windows host) install.text q.text = false

/-- One exclusion's turn. -/
def preserveStep (host : WindowsHost) (install : Bytes) (acc : Gathered) (excluded : Bytes) : Gathered :=
  if pathIsWithin (.windows host) excluded install then acc
  else if !pathIsWithin (.windows host) install excluded then appendUnique (.windows host) acc excluded
  else splitAround host excluded (install.length + 1) acc install

theorem preserveInstallRoot_eq {install : Place} (installed : windowsSuchInstallRoot host = install.text)
    (original : List Bytes) :
    preserveInstallRoot host original = (original.foldl (preserveStep host install.text) {}).out := by
  simp only [preserveInstallRoot, installed]
  rw [if_neg (by simpa using install.text_ne_nil)]
  rfl

theorem keyed_empty : Keyed host {} := rfl

variable (tidy : Tidy host entries) (install : Place)
include tidy

theorem within_false {p q : Place} : pathIsWithin (.windows host) p.text q.text = false ↔
    ¬ (rootSlashes p.root = rootSlashes q.root ∧
      keyParts (Platform.windows host).fold q <+: keyParts (Platform.windows host).fold p) := by
  rw [← Bool.not_eq_true, pathIsWithin_text tidy.folds]

/-- An exclusion above the install root is a directory on the way down to it. -/
theorem exists_depth {p : Place} (above : pathIsWithin (.windows host) install.text p.text = true) :
    p.names.length ≤ install.names.length ∧
      pathKey (.windows host) p.text =
        pathKey (.windows host) (install.above p.names.length).text := by
  obtain ⟨slashes, starts⟩ := (pathIsWithin_text tidy.folds _ _).mp above
  have sizes := starts.length_le
  rw [length_keyParts, length_keyParts] at sizes
  refine ⟨by omega, (pathKey_text_inj tidy.folds _ _).mpr ⟨slashes.symm, ?_⟩⟩
  rw [keyParts_above, ← length_keyParts (Platform.windows host).fold p]
  exact List.prefix_iff_eq_take.mp starts

/-- What lies beside the way neither holds the install root nor lies in it. -/
theorem OffWay.apart {depth : Nat} {q : Place} (off : OffWay host entries install depth q) :
    Apart host install q := by
  obtain ⟨i, -, inside, n, -, named, rfl, other⟩ := off
  have short : ((install.above i).child n named).names.length = i + 1 := by
    change (install.names.take i ++ [n]).length = _
    rw [List.length_append, List.length_take, List.length_singleton, Nat.min_eq_left (by omega)]
  constructor
  · rw [within_false tidy]
    rintro ⟨slashes, starts⟩
    -- Only the last step of the way is as long as the install root.
    have sizes := starts.length_le
    rw [length_keyParts, length_keyParts, short] at sizes
    apply other
    rw [pathKey_text_inj tidy.folds, keyParts_above, List.take_of_length_le (by
      rw [length_keyParts]; omega)]
    refine ⟨slashes, (starts.eq_of_length_le ?_).symm⟩
    rw [length_keyParts, length_keyParts, short]
    omega
  · rw [within_false tidy]
    rintro ⟨slashes, starts⟩
    apply other
    rw [pathKey_text_inj tidy.folds, keyParts_above]
    refine ⟨slashes.symm, ?_⟩
    have taken := List.prefix_iff_eq_take.mp starts
    rw [length_keyParts, short] at taken
    exact taken

theorem splitAround_install_gathers {p : Place}
    (above : pathIsWithin (.windows host) install.text p.text = true) (acc : Gathered) :
    Gathers host (Apart host install) acc
      (splitAround host p.text (install.text.length + 1) acc install.text) := by
  obtain ⟨shallow, key⟩ := exists_depth tidy install above
  have gathers := @splitAround_gathers host entries tidy install p.text p.names.length
    install.names.length (install.text.length + 1) key shallow (Nat.le_refl _) acc
  rw [install.above_all] at gathers
  exact gathers.mono fun q off => off.apart tidy install

theorem preserveStep_gathers (p : Place) (acc : Gathered) :
    Gathers host (Apart host install) acc (preserveStep host install.text acc p.text) := by
  simp only [preserveStep]
  split
  · exact .refl _ acc
  · rename_i outside
    split
    · rename_i unrelated
      refine (appendUnique_gathers tidy acc p).mono ?_
      rintro _ rfl
      exact ⟨by simpa using outside, by simpa using unrelated⟩
    · rename_i covers
      exact splitAround_install_gathers tidy install (by simpa using covers) acc

/-- Where two ways part, the first names that differ. -/
theorem exists_fork {p : Place} (slashes : rootSlashes p.root = rootSlashes install.root)
    {depth : Nat} (shared : keyParts (Platform.windows host).fold (p.above depth) =
      keyParts (Platform.windows host).fold (install.above depth))
    (deep : depth ≤ p.names.length) (low : depth ≤ install.names.length)
    (apart : Apart host install p) :
    ∃ j, depth ≤ j ∧ j < p.names.length ∧ j < install.names.length ∧
      pathKey (.windows host) (p.above j).text = pathKey (.windows host) (install.above j).text ∧
      pathKey (.windows host) (p.above (j + 1)).text ≠
        pathKey (.windows host) (install.above (j + 1)).text := by
  rw [Apart, within_false tidy, within_false tidy] at apart
  induction size : install.names.length - depth generalizing depth with
  | zero =>
    refine absurd ⟨slashes, ?_⟩ apart.1
    rw [keyParts_above, keyParts_above, @List.take_of_length_le _ _ (keyParts _ install)
      (by rw [length_keyParts]; omega)] at shared
    exact shared ▸ List.take_prefix _ _
  | succ size ih =>
    rcases Nat.eq_or_lt_of_le deep with last | deep
    · refine absurd ⟨slashes.symm, ?_⟩ apart.2
      rw [keyParts_above, keyParts_above, @List.take_of_length_le _ _ (keyParts _ p)
        (by rw [length_keyParts]; omega)] at shared
      exact shared ▸ List.take_prefix _ _
    · by_cases onward : keyParts (Platform.windows host).fold (p.above (depth + 1)) =
        keyParts (Platform.windows host).fold (install.above (depth + 1))
      · obtain ⟨j, later, found⟩ := ih onward (by omega) (by omega) (by omega)
        exact ⟨j, by omega, found⟩
      · refine ⟨depth, Nat.le_refl _, deep, by omega, ?_, ?_⟩
        · exact (pathKey_text_inj tidy.folds _ _).mpr ⟨slashes, shared⟩
        · rw [Ne, pathKey_text_inj tidy.folds]
          exact fun same => onward same.2

/-- The entry that a path takes off the way. -/
theorem beside_of_fork {p : Place} (found : Exists host entries p) {j : Nat}
    (deep : j < p.names.length)
    (shared : pathKey (.windows host) (p.above j).text = pathKey (.windows host) (install.above j).text)
    (fork : pathKey (.windows host) (p.above (j + 1)).text ≠
      pathKey (.windows host) (install.above (j + 1)).text) :
    ∃ q : Place, Beside host entries (install.above j) (install.above (j + 1)) q ∧
      pathKey (.windows host) q.text = pathKey (.windows host) (p.above (j + 1)).text := by
  obtain ⟨n, inside, folded⟩ := found j p.names[j] (List.getElem?_eq_getElem deep)
  have named := tidy.named _ n inside
  rw [shared] at inside
  have same : pathKey (.windows host) ((install.above j).child n named).text =
      pathKey (.windows host) (p.above (j + 1)).text := by
    obtain ⟨slashes, parts⟩ := (pathKey_text_inj tidy.folds _ _).mp shared
    rw [pathKey_text_inj tidy.folds]
    refine ⟨slashes.symm, ?_⟩
    rw [keyParts_child, ← parts, keyParts_above_succ _ p (List.getElem?_eq_getElem deep), folded]
  exact ⟨_, ⟨n, inside, named, rfl, same ▸ fork⟩, same⟩

/-- A path that an exclusion covers stays covered after the exclusion's turn. -/
theorem preserveStep_holds {p e : Place} {acc : Gathered} (keyed : Keyed host acc)
    (covered : pathIsWithin (.windows host) p.text e.text = true) (found : Exists host entries p)
    (plain : NoReparse host p) (apart : Apart host install p) :
    ∃ q : Place, Holds host (preserveStep host install.text acc e.text) q ∧
      pathIsWithin (.windows host) p.text q.text = true := by
  obtain ⟨slashes, starts⟩ := (pathIsWithin_text tidy.folds _ _).mp covered
  have outside : pathIsWithin (.windows host) e.text install.text = false := by
    rw [within_false tidy]
    rintro ⟨same, inner⟩
    exact (within_false tidy).mp apart.1 ⟨slashes.trans same, inner.trans starts⟩
  simp only [preserveStep]
  rw [if_neg (by simp [outside])]
  cases above : pathIsWithin (.windows host) install.text e.text with
  | false => exact ⟨e, appendUnique_holds tidy keyed e, covered⟩
  | true =>
    obtain ⟨shallow, key⟩ := exists_depth tidy install above
    obtain ⟨level, parts⟩ := (pathKey_text_inj tidy.folds _ _).mp key
    have deep := starts.length_le
    rw [length_keyParts, length_keyParts] at deep
    have shared : keyParts (Platform.windows host).fold (p.above e.names.length) =
        keyParts (Platform.windows host).fold (install.above e.names.length) := by
      rw [← parts, keyParts_above, ← length_keyParts (Platform.windows host).fold e]
      exact (List.prefix_iff_eq_take.mp starts).symm
    obtain ⟨j, lower, shorter, inside, same, fork⟩ :=
      exists_fork tidy install (slashes.trans level) shared (by omega) shallow apart
    obtain ⟨q, beside, key_q⟩ := beside_of_fork tidy install found shorter same fork
    have solid : host.isReparsePoint q.text = false := by
      rw [tidy.junction _ _ key_q]
      exact plain (j + 1)
    refine ⟨q, ?_, ?_⟩
    · have enough := install.length_names_lt
      have held := @splitAround_holds host entries acc tidy install e.text e.names.length
        install.names.length (install.text.length + 1) j q key (Nat.le_refl _) (by omega) keyed
        lower inside beside solid
      rw [install.above_all] at held
      exact held
    · obtain ⟨root, names⟩ := (pathKey_text_inj tidy.folds _ _).mp key_q
      rw [pathIsWithin_text tidy.folds, root, names, keyParts_above]
      exact ⟨rfl, List.take_prefix _ _⟩

end Preserving

section Planned
variable (host : WindowsHost)

def fixedFolders : List Bytes :=
  [KnownFolder.programData, .programFiles, .programFilesX86].map host.knownFolder ++
    systemFolders ++ [host.knownFolder .roamingAppData, host.knownFolder .localAppDataLow]

/-- The siblings of the way from the local data down to the installed copy. -/
def appendLocalData (scope : Bytes) (acc : Gathered) : Gathered :=
  let localData := host.knownFolder .localAppData
  if !localData.isEmpty && pathIsWithin (.windows host) localData scope then
    let programs := normalizedAbsolute (.windows host) (joinName .windows localData (lit "Programs"))
    let acc := appendChildrenExcept host acc localData programs
    if host.isDirectory programs then
      appendChildrenExcept host acc programs (windowsSuchInstallRoot host)
    else acc
  else acc

/-- The data trees of the other profiles. -/
def appendProfiles (scope : Bytes) (acc : Gathered) : Gathered :=
  let profiles := host.knownFolder .userProfiles
  let profiles := if profiles.isEmpty then lit "C:\\Users" else profiles
  if pathIsWithin (.windows host) profiles scope || pathIsWithin (.windows host) scope profiles then
    (host.children profiles).foldl (appendProfile host scope) acc
  else acc

/-- The exclusions before any of them is split. -/
def plannedExclusions (scopeRoot : Bytes) : List Bytes :=
  let scope := normalizedAbsolute (.windows host) scopeRoot
  (appendProfiles host scope (appendLocalData host scope
    ((fixedFolders host).foldl (appendIfInsideScope host scope) {}))).out

theorem windowsFixedExclusions_eq (scopeRoot : Bytes) : windowsFixedExclusions host scopeRoot =
    preserveInstallRoot host (plannedExclusions host scopeRoot) := rfl

def systemDrive : Place where
  root := lit "C:"
  names := []
  isRoot := .drive rfl
  named := List.forall_mem_nil _

theorem systemDrive_child {n : Bytes} (named : IsEntryName n) :
    lit "C:\\" ++ n = (systemDrive.child n named).text := rfl

theorem systemFolders_text : ∀ folder ∈ systemFolders, ∃ p : Place, folder = p.text := by
  have named : ∀ n ∈ protectedNames, IsEntryName n := by decide +kernel
  have listed : systemFolders = protectedNames.map (lit "C:\\" ++ ·) := by decide +kernel
  rw [listed]
  intro folder member
  obtain ⟨n, inside, rfl⟩ := List.mem_map.mp member
  exact ⟨_, systemDrive_child (named n inside)⟩

/-- Only places are added. -/
abbrev Places (acc acc' : Gathered) : Prop := Gathers host (fun _ => True) acc acc'

variable {host} {entries : Bytes → List Bytes} (tidy : Tidy host entries)
include tidy

theorem appendUnique_places (acc : Gathered) (p : Place) :
    Places host acc (appendUnique (.windows host) acc p.text) :=
  (appendUnique_gathers tidy acc p).mono fun _ _ => trivial

theorem appendIfInsideScope_places (scope : Bytes) (acc : Gathered) {candidate : Bytes}
    (placed : candidate = [] ∨ ∃ p : Place, candidate = p.text) :
    Places host acc (appendIfInsideScope host scope acc candidate) := by
  simp only [appendIfInsideScope]
  split
  · rename_i inside
    rcases placed with rfl | ⟨p, rfl⟩
    · simp at inside
    · exact appendUnique_places tidy acc p
  · exact .refl _ acc

theorem appendChildrenExcept_places (acc : Gathered) (parent : Place) (allowed : Bytes) :
    Places host acc (appendChildrenExcept host acc parent.text allowed) := by
  simp only [appendChildrenExcept]
  apply Gathers.foldl
  intro child member acc
  obtain ⟨n, -, named, rfl⟩ := children_text tidy member
  split
  · exact .refl _ acc
  · split
    · exact .refl _ acc
    · rw [tidy.normalizedAbsolute_text]
      exact appendUnique_places tidy acc _

theorem appendProfile_places (scope : Bytes) (acc : Gathered) {parent : Place} {child : Bytes}
    (member : child ∈ host.children parent.text) :
    Places host acc (appendProfile host scope acc child) := by
  obtain ⟨n, -, named, rfl⟩ := children_text tidy member
  simp only [appendProfile, tidy.normalizedAbsolute_text]
  rw [Place.joinName_text _ _ isEntryName_parts.2.2.1]
  split
  · exact .refl _ acc
  · split
    · exact .refl _ acc
    · split
      · exact appendIfInsideScope_places tidy scope acc (.inr ⟨_, rfl⟩)
      · exact .refl _ acc

theorem appendLocalData_places (scope : Bytes) (acc : Gathered) :
    Places host acc (appendLocalData host scope acc) := by
  simp only [appendLocalData]
  split
  · rename_i inside
    rcases tidy.folders .localAppData with none | ⟨p, placed⟩
    · simp [none] at inside
    · rw [placed, p.joinName_text _ isEntryName_parts.1, tidy.normalizedAbsolute_text]
      have siblings := appendChildrenExcept_places tidy acc p (p.child _ isEntryName_parts.1).text
      split
      · exact siblings.trans (appendChildrenExcept_places tidy _ _ _)
      · exact siblings
  · exact .refl _ acc

theorem appendProfiles_places (scope : Bytes) (acc : Gathered) :
    Places host acc (appendProfiles host scope acc) := by
  have profiles : ∃ p : Place, (if (host.knownFolder .userProfiles).isEmpty then lit "C:\\Users"
      else host.knownFolder .userProfiles) = p.text := by
    rcases tidy.folders .userProfiles with none | ⟨p, placed⟩
    · rw [none]
      exact ⟨_, systemDrive_child isEntryName_parts.2.2.2⟩
    · rw [placed, if_neg (by simpa using p.text_ne_nil)]
      exact ⟨p, rfl⟩
  obtain ⟨p, profiles⟩ := profiles
  simp only [appendProfiles, profiles]
  split
  · exact .foldl (fun child member acc => appendProfile_places tidy scope acc member) acc
  · exact .refl _ acc

theorem fixedFolders_text :
    ∀ candidate ∈ fixedFolders host, candidate = [] ∨ ∃ p : Place, candidate = p.text := by
  simp only [fixedFolders, List.forall_mem_append, List.forall_mem_map, List.forall_mem_cons]
  exact ⟨⟨⟨tidy.folders _, tidy.folders _, tidy.folders _, List.forall_mem_nil _⟩,
    fun folder member => .inr (systemFolders_text folder member)⟩,
    tidy.folders _, tidy.folders _, List.forall_mem_nil _⟩

theorem plannedExclusions_text (scopeRoot : Bytes) :
    ∀ e ∈ plannedExclusions host scopeRoot, ∃ p : Place, e = p.text := by
  let scope := normalizedAbsolute (.windows host) scopeRoot
  have folders : Places host {} ((fixedFolders host).foldl (appendIfInsideScope host scope) {}) :=
    .foldl (fun candidate member acc =>
      appendIfInsideScope_places tidy scope acc (fixedFolders_text tidy candidate member)) {}
  have all := (folders.trans (appendLocalData_places tidy scope _)).trans
    (appendProfiles_places tidy scope _)
  intro e member
  rcases all.only e member with none | ⟨p, -, same⟩
  · cases none
  · exact ⟨p, same⟩

end Planned

section Exact
variable {host : WindowsHost} {entries : Bytes → List Bytes}

/-- The climb of every exclusion ends within its fuel; no exclusion of the result holds the
install root or lies in it; and what was covered before, the install root, what lies in it and
the directories above it apart, is covered after. -/
structure SplitsExactly (host : WindowsHost) (entries : Bytes → List Bytes) (scopeRoot : Bytes) :
    Prop where
  ends : ∀ excluded, SplitEnds host excluded (windowsSuchInstallRoot host)
  enough : ∀ excluded acc extra,
    splitAround host excluded ((windowsSuchInstallRoot host).length + 1 + extra) acc
        (windowsSuchInstallRoot host) =
      splitAround host excluded ((windowsSuchInstallRoot host).length + 1) acc
        (windowsSuchInstallRoot host)
  apart : windowsSuchInstallRoot host ≠ [] → ∀ e ∈ windowsFixedExclusions host scopeRoot,
    pathIsWithin (.windows host) e (windowsSuchInstallRoot host) = false ∧
      pathIsWithin (.windows host) (windowsSuchInstallRoot host) e = false
  covered : ∀ p : Place, Exists host entries p → NoReparse host p →
    (∃ e ∈ plannedExclusions host scopeRoot, pathIsWithin (.windows host) p.text e = true) →
    pathIsWithin (.windows host) p.text (windowsSuchInstallRoot host) = true ∨
      pathIsWithin (.windows host) (windowsSuchInstallRoot host) p.text = true ∨
      ∃ e ∈ windowsFixedExclusions host scopeRoot, pathIsWithin (.windows host) p.text e = true

theorem windowsFixedExclusions_apart (tidy : Tidy host entries) {install : Place}
    (installed : windowsSuchInstallRoot host = install.text) (scopeRoot : Bytes) :
    ∀ e ∈ windowsFixedExclusions host scopeRoot, ∃ q : Place, e = q.text ∧ Apart host install q := by
  rw [windowsFixedExclusions_eq, preserveInstallRoot_eq installed]
  have all : Gathers host (Apart host install) {}
      ((plannedExclusions host scopeRoot).foldl (preserveStep host install.text) {}) := by
    apply Gathers.foldl
    intro e member acc
    obtain ⟨p, rfl⟩ := plannedExclusions_text tidy scopeRoot e member
    exact preserveStep_gathers tidy install p acc
  intro e member
  rcases all.only e member with none | ⟨q, apart, same⟩
  · cases none
  · exact ⟨q, same, apart⟩

theorem windowsFixedExclusions_covered (tidy : Tidy host entries) {install : Place}
    (installed : windowsSuchInstallRoot host = install.text) {scopeRoot e : Bytes} {p : Place}
    (found : Exists host entries p) (plain : NoReparse host p) (apart : Apart host install p)
    (member : e ∈ plannedExclusions host scopeRoot)
    (covered : pathIsWithin (.windows host) p.text e = true) :
    ∃ e ∈ windowsFixedExclusions host scopeRoot, pathIsWithin (.windows host) p.text e = true := by
  have placed := plannedExclusions_text tidy scopeRoot
  have each : ∀ e ∈ plannedExclusions host scopeRoot, ∀ acc,
      Gathers host (Apart host install) acc (preserveStep host install.text acc e) := by
    intro e member acc
    obtain ⟨p, rfl⟩ := placed e member
    exact preserveStep_gathers tidy install p acc
  obtain ⟨before, after, split⟩ := List.append_of_mem member
  obtain ⟨q, rfl⟩ := placed e member
  rw [split, List.forall_mem_append, List.forall_mem_cons] at each
  rw [windowsFixedExclusions_eq, preserveInstallRoot_eq installed, split, List.foldl_append,
    List.foldl_cons]
  have first : Gathers host (Apart host install) {} (before.foldl (preserveStep host install.text) {}) :=
    .foldl each.1 {}
  obtain ⟨kept, held, within⟩ := preserveStep_holds tidy install (first.keyed keyed_empty)
    covered found plain apart
  obtain ⟨e, inside, same⟩ := (Gathers.foldl each.2.2 _).holds held
  refine ⟨e, inside, ?_⟩
  rw [pathIsWithin, same]
  exact within

/-- Splitting around the install root is exact. -/
theorem windowsFixedExclusions_splitsExactly (tidy : Tidy host entries) (scopeRoot : Bytes) :
    SplitsExactly host entries scopeRoot := by
  constructor
  · intro excluded
    exact splitEnds host excluded _
  · intro excluded acc extra
    exact splitAround_enough host excluded extra acc (Nat.lt_succ_self _)
  · intro some_ e member
    obtain ⟨install, installed⟩ := tidy.installRoot.resolve_left some_
    obtain ⟨q, rfl, apart⟩ := windowsFixedExclusions_apart tidy installed scopeRoot e member
    rw [installed]
    exact apart
  · rintro p found plain ⟨e, member, covered⟩
    rcases tidy.installRoot with none | ⟨install, installed⟩
    · refine .inr (.inr ⟨e, ?_, covered⟩)
      rw [windowsFixedExclusions_eq, preserveInstallRoot, none]
      exact member
    · by_cases inner : pathIsWithin (.windows host) p.text install.text = true
      · exact .inl (installed ▸ inner)
      · by_cases above : pathIsWithin (.windows host) install.text p.text = true
        · exact .inr (.inl (installed ▸ above))
        · refine .inr (.inr (windowsFixedExclusions_covered tidy installed found plain ?_ member covered))
          exact ⟨by simpa using inner, by simpa using above⟩

def filesEntries (key : Bytes) : List Bytes :=
  if key = lit "c:" then [lit "Program Files", lit "Work"]
  else if key = lit "c:/program files" then [lit "Such", lit "Other"]
  else []

/-- A copy installed for every user, with a neighbour; only ASCII paths are asked about. -/
def filesHost : WindowsHost where
  decodes _ := true
  decodes_cstr _ _ := rfl
  lowercase text := some (lower text)
  absolute := some
  knownFolder
    | .programFiles => lit "C:\\Program Files"
    | _ => []
  moduleFile := some (lit "C:\\Program Files\\Such\\Such.exe")
  isRegularFile file := file == lit "C:\\Program Files\\Such\\unins000.exe"
  isDirectory _ := true
  children path := (filesEntries (lower (stripTrailing (genericText .windows
    (lexicallyNormal .windows path))))).map (joinName .windows path)
  isReparsePoint _ := false

theorem filesHost_fold : (Platform.windows filesHost).fold = lower := by
  funext text
  cases text with
  | nil => rfl
  | cons b text => rfl

theorem folds_lower : Folds lower := by
  constructor
  · rfl
  · intro v w
    exact List.map_append
  · rintro v ⟨filled, free⟩
    refine ⟨mt List.map_eq_nil_iff.mp filled, fun member => ?_⟩
    obtain ⟨b, inside, same⟩ := List.mem_map.mp member
    rw [toLower_eq_iff (by decide)] at same
    exact free (same ▸ inside)

theorem isEntryName_neighbours : IsEntryName (lit "Program Files") ∧ IsEntryName (lit "Such.exe") ∧
    ∀ n ∈ [lit "Such", lit "Other", lit "Program Files", lit "Work"], IsEntryName n := by
  decide +kernel

theorem filesHost_tidy : Tidy filesHost filesEntries := by
  have programs : lit "C:\\Program Files" = (systemDrive.child _ isEntryName_neighbours.1).text := rfl
  constructor
  · rw [filesHost_fold]
    exact folds_lower
  · intro p
    rfl
  · intro folder
    cases folder with
    | programFiles => exact .inr ⟨_, programs⟩
    | _ => exact .inl rfl
  · intro file found
    refine ⟨((systemDrive.child _ isEntryName_neighbours.1).child _ isEntryName_parts.2.1).child _
      isEntryName_neighbours.2.1, ?_⟩
    rw [← Option.some.inj found]
    rfl
  · intro key n member
    apply isEntryName_neighbours.2.2
    simp only [filesEntries] at member
    split_ifs at member
    · exact List.mem_cons_of_mem _ (List.mem_cons_of_mem _ member)
    · exact List.mem_append_left [lit "Program Files", lit "Work"] member
    · cases member
  · intro p child
    simp only [pathKey, filesHost_fold]
    simp only [filesHost, List.mem_map]
    constructor
    · rintro ⟨n, inside, rfl⟩
      exact ⟨n, inside, rfl⟩
    · rintro ⟨n, inside, rfl⟩
      exact ⟨n, inside, rfl⟩
  · intro p q same
    rfl

/-- The neighbour's directory. -/
def otherProgram : Place :=
  (systemDrive.child _ isEntryName_neighbours.1).child (lit "Other")
    (isEntryName_neighbours.2.2 _ (.tail _ (.head _)))

theorem otherProgram_exists : Exists filesHost filesEntries otherProgram := by
  intro depth name named
  match depth with
  | 0 =>
    cases named
    exact ⟨lit "Program Files", by decide +kernel, rfl⟩
  | 1 =>
    cases named
    exact ⟨lit "Other", by decide +kernel, rfl⟩
  | _ + 2 => cases named

/-- The neighbour was covered by the exclusion of the directory above and still is. -/
theorem filesHost_splitsExactly : SplitsExactly filesHost filesEntries (lit "C:\\") ∧
    ∃ e ∈ windowsFixedExclusions filesHost (lit "C:\\"),
      pathIsWithin (.windows filesHost) otherProgram.text e = true := by
  have exact_ := windowsFixedExclusions_splitsExactly filesHost_tidy (lit "C:\\")
  have covered : ∃ e ∈ plannedExclusions filesHost (lit "C:\\"),
      pathIsWithin (.windows filesHost) otherProgram.text e = true := by decide +kernel
  have apart : pathIsWithin (.windows filesHost) otherProgram.text (windowsSuchInstallRoot filesHost) =
        false ∧ pathIsWithin (.windows filesHost) (windowsSuchInstallRoot filesHost)
          otherProgram.text = false := by decide +kernel
  refine ⟨exact_, ?_⟩
  rcases exact_.covered _ otherProgram_exists (fun _ => rfl) covered with inner | above | kept
  · rw [apart.1] at inner
    cases inner
  · rw [apart.2] at above
    cases above
  · exact kept

end Exact
end Such.IndexPathPolicy
