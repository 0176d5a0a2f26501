import Such.Base.LexicalPath.Rooted
import Such.Runtime.IndexSnapshot.RoundTrip

/-! Where an import puts its staging directory and its backup, for every state directory the
environment can name on Linux. -/
namespace Such.IndexSnapshot
open ByteText Wire FileSystem LexicalPath

section Resolving

/-- The variables that are read, `none` where unset, and the working directory. -/
structure Environment where
  stateDir : Option Bytes
  dataHome : Option Bytes
  home : Option Bytes
  workingDirectory : Loc
  /-- Variables are C strings. -/
  clear : ∀ v ∈ [stateDir, dataHome, home], ∀ text ∈ v, 0 ∉ text

def absolutePath (env : Environment) (path : Bytes) : Bytes :=
  if isAbsolute path then path else append (rootedText env.workingDirectory false) path

def kHomeUnavailable : Failure :=
  .plain (lit "HOME/XDG_DATA_HOME is unavailable; cannot resolve Such index state")

/-- The data directory of the user. -/
def dataHomeDirectory (env : Environment) : Except Failure Bytes :=
  match env.dataHome.filter (!·.isEmpty), env.home.filter (!·.isEmpty) with
  | some xdg, _ => .ok xdg
  | none, some home => .ok (append (append home (lit ".local")) (lit "share"))
  | none, none => .error kHomeUnavailable

def indexStateDirectory (env : Environment) : Except Failure Bytes :=
  match env.stateDir.filter (!·.isEmpty) with
  | some explicit => .ok (lexicallyNormal .posix (absolutePath env explicit))
  | none => do
    let dataHome ← dataHomeDirectory env
    return lexicallyNormal .posix
      (absolutePath env (append (append dataHome (lit "such")) (lit "index")))

/-- `SUCH_STATE_DIR`, where it is set, ends in a name: not in a slash or a dot link. -/
def Environment.EndsInName (env : Environment) : Prop :=
  ∀ explicit ∈ env.stateDir, explicit ≠ [] →
    FileSystem.filename explicit ∉ [[], [46], [46, 46]]

variable {env : Environment} {path : Bytes}

theorem absolutePath_absolute (env : Environment) (path : Bytes) :
    isAbsolute (absolutePath env path) = true := by
  simp only [absolutePath]
  split
  · assumption
  · rename_i relative
    simp [append, relative, rootedText]
    split <;> rfl

theorem filename_absolutePath (env : Environment) (path : Bytes) :
    FileSystem.filename (absolutePath env path) = FileSystem.filename path := by
  simp only [absolutePath]
  split
  · rfl
  · rename_i relative
    exact filename_append (by simpa using relative)

theorem zero_notMem_append {path more : Bytes} (left : 0 ∉ path) (right : 0 ∉ more) :
    0 ∉ append path more := by
  simp only [append]
  split
  · exact right
  · split <;> simp [left, right]

theorem zero_notMem_absolutePath (clear : 0 ∉ path) : 0 ∉ absolutePath env path := by
  simp only [absolutePath]
  split
  · exact clear
  · exact zero_notMem_append (zero_notMem_rootedText _ _) clear

/-- An absolute path in normal form ends in a slash when it was spelt as a directory. -/
theorem exists_normalized (clear : 0 ∉ path) : ∃ names : Loc,
    lexicallyNormal .posix (absolutePath env path) = rootedText names
      (decide (names ≠ []) && decide (FileSystem.filename path ∈ [[], [46], [46, 46]])) := by
  have absolute := absolutePath_absolute env path
  obtain ⟨names, normal⟩ := lexicallyNormal_rooted absolute (zero_notMem_absolutePath clear)
  refine ⟨names, normal.trans ?_⟩
  have filled : absolutePath env path ≠ [] := by
    intro empty
    rw [empty] at absolute
    cases absolute
  have ends : endsInDirectory .posix (absolutePath env path) =
      decide (FileSystem.filename path ∈ [[], [46], [46, 46]]) := by
    rw [Bool.eq_iff_iff, endsInDirectory_posix filled, filename_absolutePath]
    simp
  rw [ends]

/-- What the state directory is resolved from: the variable, or a path that ends in `index`. -/
theorem indexStateDirectory_cases {stateDirectory : Bytes}
    (resolved : indexStateDirectory env = .ok stateDirectory) : ∃ path, 0 ∉ path ∧
      stateDirectory = lexicallyNormal .posix (absolutePath env path) ∧
      (FileSystem.filename path ∉ [[], [46], [46, 46]] ↔ env.EndsInName) := by
  simp only [indexStateDirectory] at resolved
  split at resolved
  · rename_i explicit found
    obtain ⟨named, filled⟩ := Option.filter_eq_some_iff.mp found
    refine ⟨explicit, env.clear _ (by simp) explicit named, (Except.ok.inj resolved).symm, ?_⟩
    constructor
    · intro ends other same _
      cases named.symm.trans same
      exact ends
    · intro ends
      exact ends explicit named (by simpa using filled)
  · rename_i unset
    obtain ⟨dataHome, found, normal⟩ := bind_eq_ok.mp resolved
    have clear : 0 ∉ dataHome := by
      simp only [dataHomeDirectory] at found
      split at found
      · rename_i xdg named
        cases found
        exact env.clear _ (by simp) _ (Option.filter_eq_some_iff.mp named).1
      · rename_i home _ named
        cases found
        have clear := env.clear _ (by simp) _ (Option.filter_eq_some_iff.mp named).1
        exact zero_notMem_append (zero_notMem_append clear (by decide)) (by decide)
      · cases found
    refine ⟨_, ?_, (Except.ok.inj normal).symm, ?_⟩
    · exact zero_notMem_append (zero_notMem_append clear (by decide)) (by decide)
    · rw [filename_append (by decide)]
      apply iff_of_true (by decide)
      intro explicit named filled
      have kept := Option.filter_eq_none_iff.mp unset explicit named
      simp [filled] at kept

/-- The state directory is a normal absolute path. It ends in a slash exactly when the variable
that names it does not end in a name. -/
theorem exists_stateDirectory {stateDirectory : Bytes}
    (resolved : indexStateDirectory env = .ok stateDirectory)
    (proper : locate stateDirectory ≠ []) : ∃ (d : Loc) (s : Name) (slash : Bool),
      stateDirectory = rootedText (d ++ [s]) slash ∧ (slash = false ↔ env.EndsInName) := by
  obtain ⟨path, clear, rfl, ends⟩ := indexStateDirectory_cases resolved
  obtain ⟨names, normal⟩ := @exists_normalized env path clear
  rw [normal, locate_rootedText] at proper
  refine ⟨names.dropLast, names.getLast proper,
    decide (FileSystem.filename path ∈ [[], [46], [46, 46]]), ?_, ?_⟩
  · rw [List.dropLast_append_getLast, normal, decide_eq_true proper, Bool.true_and]
  · rw [← ends, decide_eq_false_iff_not]

end Resolving

section Siblings

/-- The staging directory's and the backup's. -/
def siblingSuffixes : List Bytes := [lit ".snapshot-import-", lit ".snapshot-backup-"]

variable {fault : Option ImportFault} {now : Nat × Nat} {disk : Disk} {snapshot stateDirectory : Bytes}
  {suffix : Bytes} {l : Loc}

theorem siblingSuffix_long (member : suffix ∈ siblingSuffixes) : IsSuffix suffix ∧ 2 < suffix.length := by
  rcases List.mem_pair.mp member with rfl | rfl <;> decide

theorem importSuffix : lit ".snapshot-import-" ∈ siblingSuffixes := by decide

/-- A slash at the end makes a sibling a child. -/
theorem uniqueSibling_slash (plain : Plain stateDirectory l) (member : suffix ∈ siblingSuffixes)
    (stamp : Nat) :
    ∃ name : Name, Plain (uniqueSibling (stateDirectory ++ [47]) suffix stamp) (l ++ [name]) := by
  obtain ⟨more, long⟩ := siblingSuffix_long member
  obtain ⟨filled, zero, slash⟩ := isSuffix_stamped more stamp
  have longer : 2 < (suffix ++ decimal stamp).length := by
    rw [List.length_append]
    omega
  have valid : IsName (suffix ++ decimal stamp) := by
    refine ⟨filled, slash, zero, ?_, ?_⟩
    · intro same
      simp [same] at longer
    · intro same
      simp [same] at longer
  have bare : FileSystem.filename (stateDirectory ++ [47]) = [] := filename_append_slash stateDirectory []
  refine ⟨⟨_, valid⟩, ?_⟩
  rw [uniqueSibling_eq, bare, plain.parentPath_slash, List.nil_append]
  exact plain.child ⟨_, valid⟩

/-- Nothing takes the place of a directory it lies in. -/
theorem rename_onto_parent (a : Loc) (n : Name) (disk : Disk) : rename (a ++ [n]) a disk = none := by
  apply Option.eq_none_iff_forall_ne_some.mpr
  intro moved done
  obtain ⟨-, -, -, ⟨same, -⟩ | ⟨-, apart, -⟩⟩ := rename_cases done
  · simp at same
  · exact apart (List.prefix_append a [n])

/-- A staging directory inside the state directory is not activated, whether there was one before
or not. -/
theorem activate_inside {temp backup : Bytes} {t : Name} (state : locate stateDirectory = l)
    (staging : Plain temp (l ++ [t])) {active : Disk} :
    activate fault temp backup stateDirectory disk ≠ .ok active := by
  intro done
  have back : ∀ tree, renameAt temp stateDirectory tree = none := by
    intro tree
    simp only [renameAt]
    rw [state, staging.locate, rename_onto_parent, ite_self]
  simp only [activate, bind_eq_ok, require_eq_ok, back, ite_self, reduceCtorEq, false_and,
    exists_false, and_false] at done

theorem locate_slash (plain : Plain stateDirectory l) : locate (stateDirectory ++ [47]) = l := by
  have clear : 0 ∉ stateDirectory ++ [47] := by simp [plain.clear]
  rw [locate, cstr_of_notMem clear, components_append_slash, plain.parts]
  simp [components, foldl_enter_names]

/-- No import into a directory spelt with a slash at the end succeeds. -/
theorem import_slash (plain : Plain stateDirectory l) {outcome : IndexSnapshotInfo × Disk} :
    importIndexSnapshot fault now disk snapshot (stateDirectory ++ [47]) ≠ .ok outcome := by
  intro done
  obtain ⟨t, staging⟩ := uniqueSibling_slash plain importSuffix now.1
  simp only [importIndexSnapshot, bind_eq_ok] at done
  obtain ⟨_, _, _, _, _, _, _, _, _, _, _, _, _, active, _⟩ := done
  exact activate_inside (locate_slash plain) staging active

end Siblings

section ValidSnapshots

/-- The snapshot is what an export of a tree nobody changed has written, and the roots it
records are there. -/
def Produced (disk : Disk) (snapshot : Bytes) : Prop :=
  ∃ fault walk tree source destination roots generation info published,
    QuietTree tree source walk ∧
      exportIndexSnapshot fault walk tree source destination roots generation =
        .ok (info, published) ∧
      openRead disk snapshot = openRead published destination ∧ RootsExist disk roots

/-- Staging directory and backup lie outside the state directory, and every valid snapshot is
imported whatever the clock says. -/
structure Activates (stateDirectory : Bytes) : Prop where
  outside : ∀ suffix ∈ siblingSuffixes, ∀ stamp,
    ¬ locate stateDirectory <+: locate (uniqueSibling stateDirectory suffix stamp)
  imports : ∀ now disk snapshot, Produced disk snapshot →
    NoFileOnWay [] (locate stateDirectory) disk →
      ∃ outcome, importIndexSnapshot none now disk snapshot stateDirectory = .ok outcome

variable {stateDirectory : Bytes} {d : Loc} {s : Name}

theorem activates_of_plain (plain : Plain stateDirectory (d ++ [s])) : Activates stateDirectory := by
  constructor
  · intro suffix member stamp inside
    have more := isSuffix_stamped (siblingSuffix_long member).1 stamp
    obtain ⟨name, bytes, sibling⟩ := plain.sibling more
    rw [uniqueSibling_eq, plain.locate, sibling.locate] at inside
    have same : s = name := by simpa using inside
    rw [← same] at bytes
    exact more.1 (List.append_right_eq_self.mp bytes.symm)
  · rintro now disk snapshot ⟨fault, walk, tree, source, destination, roots, generation, info,
      published, quiet, done, same, exist⟩ way
    obtain ⟨able, publishes, -⟩ := exportIndexSnapshot_eq_ok.mp done
    rw [plain.locate] at way
    have above : NoFileOnWay [] d disk := by
      rintro q ⟨-, filled, below⟩ content
      exact way q ⟨List.nil_prefix, filled, below.trans (List.prefix_append _ _)⟩ content
    have importable := quiet.importable able.few able.fits exist (same.trans publishes.openRead) above
    have complete : ∃ imported, importIndexSnapshot none now disk snapshot stateDirectory =
        .ok (_, imported) := import_complete plain importable (.inl rfl)
    obtain ⟨imported, run⟩ := complete
    exact ⟨_, run⟩

theorem not_activates_of_slash (plain : Plain stateDirectory (d ++ [s])) :
    ¬ Activates (stateDirectory ++ [47]) := by
  intro activates
  obtain ⟨t, staging⟩ := uniqueSibling_slash plain importSuffix 0
  apply activates.outside (lit ".snapshot-import-") importSuffix 0
  rw [locate_slash plain, staging.locate]
  exact List.prefix_append _ _

/-- Imports into the state directory go through, with their siblings outside it, exactly when
the variable that names it ends in a name. -/
theorem activates_iff (env : Environment) (stateDirectory : Bytes)
    (resolved : indexStateDirectory env = .ok stateDirectory) (proper : locate stateDirectory ≠ []) :
    Activates stateDirectory ↔ env.EndsInName := by
  obtain ⟨d, s, slash, rfl, ends⟩ := exists_stateDirectory resolved proper
  have plain := rootedText_plain d s
  rw [← ends]
  cases slash with
  | false => exact iff_of_true (activates_of_plain plain) rfl
  | true =>
    rw [rootedText_slash]
    exact iff_of_false (not_activates_of_slash plain) (by simp)

def namedEnvironment (explicit : Bytes) (clear : 0 ∉ explicit) : Environment where
  stateDir := some explicit
  dataHome := none
  home := none
  workingDirectory := []
  clear := by simpa using clear

theorem named_directory_activates : Activates (lit "/t") := by
  apply (activates_iff (namedEnvironment (lit "/t") (by decide)) (lit "/t") (by decide +kernel)
    (by decide +kernel)).mpr
  intro explicit same _
  cases same
  decide +kernel

/-- With a slash at the end of the variable the staging directory lies inside the state
directory, and the import of an exported snapshot is refused. -/
theorem slashed_directory_fails :
    indexStateDirectory (namedEnvironment (lit "/t/") (by decide)) = .ok (lit "/t/") ∧
      locate (lit "/t/") <+: locate (uniqueSibling (lit "/t/") (lit ".snapshot-import-") 1) ∧
      QuietTree smallDisk (lit "/s") smallWalk ∧
      (exportIndexSnapshot none smallWalk smallDisk (lit "/s") (lit "/o") [lit "/s"] 7).toOption.map
        (fun outcome => (importIndexSnapshot none (1, 2) outcome.2 (lit "/o") (lit "/t/")).toOption) =
          some none ∧
      ¬ Activates (lit "/t/") := by
  have inside : locate (lit "/t/") <+:
      locate (uniqueSibling (lit "/t/") (lit ".snapshot-import-") 1) := by decide +kernel
  refine ⟨by decide +kernel, inside, smallTree, by decide +kernel, ?_⟩
  intro activates
  exact activates.outside (lit ".snapshot-import-") (by decide) 1 inside

end ValidSnapshots
end Such.IndexSnapshot
