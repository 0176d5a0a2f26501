import Such.Runtime.IndexSnapshot.Atomic
import Such.Runtime.IndexSnapshot.Interference

/-! An export of a quiet tree followed by an import. -/
namespace Such.IndexSnapshot
open ByteText Wire FileSystem

section QuietTrees

/-- What the export's calls see of a file nobody touches. -/
def fileView (names : Loc) (content : Bytes) : EntryView :=
  { names, status := some .regular, relativizes := true, fileSize := some content.length,
    opens := true, atCrc := content, atCopy := content }

/-- What they see of any entry of a tree without links. -/
def stillView (disk : Disk) (top names : Loc) : EntryView :=
  match get disk (top ++ names) with
  | some (.file content) => fileView names content
  | _ =>
    { names, status := some .directory, relativizes := true, fileSize := none, opens := false,
      atCrc := [], atCopy := [] }

/-- The longest path the system takes. -/
def pathMax : Nat := 4096

/-- A directory that nobody changes, walked without an error, in any order. -/
structure QuietTree (disk : Disk) (stateDirectory : Bytes) (walk : Walk) : Prop where
  closed : Closed disk
  present : isDirectory disk stateDirectory = true
  quiet : ∀ visit ∈ walk.visits, visit.code = false
  named : ∀ visit ∈ walk.visits, visit.entry.names ≠ []
  still : ∀ visit ∈ walk.visits,
    visit.entry = stillView disk (locate stateDirectory) visit.entry.names
  complete : ∀ names, names ≠ [] → get disk (locate stateDirectory ++ names) ≠ none →
    ∃ visit ∈ walk.visits, visit.entry.names = names
  once : (walk.visits.map (·.entry.names)).Nodup
  short : ∀ visit ∈ walk.visits, (append stateDirectory (joinNames visit.entry.names)).length < pathMax

variable {disk : Disk} {stateDirectory : Bytes} {walk : Walk} {roots : List Bytes}
  {generation : UInt64} {content : Bytes} {top names : Loc}

theorem stillView_names : (stillView disk top names).names = names := by
  simp only [stillView]
  split <;> rfl

theorem stillView_regular : (stillView disk top names).status = some .regular ↔
    ∃ content, get disk (top ++ names) = some (.file content) := by
  simp only [stillView]
  split
  · rename_i content file
    simp [file, fileView]
  · rename_i other
    simpa using other

theorem stillView_of_file (file : get disk (top ++ names) = some (.file content)) :
    stillView disk top names = fileView names content := by
  simp [stillView, file]

/-- A carried entry of a quiet tree is a file whose three reads agree. -/
theorem QuietTree.carried_file (tree : QuietTree disk stateDirectory walk) {entry : StateEntry}
    (member : entry ∈ carried stateDirectory walk.visits) : ∃ names content, names ≠ [] ∧
      get disk (locate stateDirectory ++ names) = some (.file content) ∧
      excludedStateFile (append stateDirectory (joinNames names)) = false ∧
      (joinNames names).length < pathMax ∧ entry = ⟨append stateDirectory (joinNames names),
        joinNames names, content.length, stillView disk (locate stateDirectory) names⟩ := by
  obtain ⟨visit, found, ⟨regular, kept⟩, rfl⟩ := carried_of_mem member
  have still := tree.still visit found
  have short := tree.short visit found
  have named := tree.named visit found
  generalize visit.entry.names = names at still short named
  rw [EntryView.path] at kept
  rw [still, stillView_names] at kept
  rw [still] at regular ⊢
  obtain ⟨content, file⟩ := stillView_regular.mp regular
  refine ⟨names, content, named, file, kept, ?_, ?_⟩
  · have : (joinNames names).length ≤ (append stateDirectory (joinNames names)).length := by
      simp only [append]
      split
      · rfl
      · split <;> simp only [List.length_append, List.length_cons] <;> omega
    omega
  · simp [EntryView.stateEntry, EntryView.path, stillView_of_file file, fileView, pathUtf8]

theorem QuietTree.passed (tree : QuietTree disk stateDirectory walk) :
    ∀ visit ∈ walk.visits, visit.Passed stateDirectory := by
  intro visit found
  have still := tree.still visit found
  refine ⟨tree.quiet visit found, ?_, ?_, fun travels => ?_⟩
  · rw [still, stillView]
    split <;> simp [fileView]
  · rw [still, stillView]
    split <;> simp [fileView]
  · obtain ⟨regular, -⟩ := travels
    rw [still] at regular
    obtain ⟨content, file⟩ := stillView_regular.mp regular
    rw [stillView_of_file file] at still
    exact ⟨by rw [still, fileView], tree.named visit found, by rw [still, fileView]; simp⟩

/-- Roots that exist, under paths the system takes. -/
structure RootsExist (disk : Disk) (roots : List Bytes) : Prop where
  few : roots.length ≤ kMaxRoots
  present : ∀ root ∈ roots, isDirectory disk root = true
  short : ∀ root ∈ roots, root.length < pathMax

theorem RootsExist.plain (exist : RootsExist disk roots) :
    ∀ root ∈ roots, root ≠ [] ∧ (pathUtf8 root).length < pathMax := by
  intro root member
  refine ⟨?_, lt_of_le_of_lt (length_generic_le root) (exist.short root member)⟩
  rintro rfl
  have := exist.present [] member
  simp [isDirectory, cstr] at this

theorem QuietTree.exportable (tree : QuietTree disk stateDirectory walk)
    (few : (carried stateDirectory walk.visits).length ≤ kMaxEntries)
    (fits : sizeTotal (carried stateDirectory walk.visits) < 2 ^ 64) {there : Disk}
    (exist : RootsExist there roots) :
    Exportable none walk disk stateDirectory roots generation := by
  have small : pathMax < 2 ^ 32 := by decide
  refine ⟨tree.present, tree.passed, few, fits, exist.few, fun root member => ?_,
    fun entry member => ?_, within_none _⟩
  · exact lt_trans (exist.plain root member).2 small
  · obtain ⟨names, content, -, file, -, short, rfl⟩ := tree.carried_file member
    rw [StateEntry.Copied, stillView_of_file file]
    exact ⟨rfl, lt_trans short small, Nat.le_refl _⟩

theorem QuietTree.readable (tree : QuietTree disk stateDirectory walk)
    (few : (carried stateDirectory walk.visits).length ≤ kMaxEntries)
    (fits : sizeTotal (carried stateDirectory walk.visits) < 2 ^ 64) {there : Disk}
    (exist : RootsExist there roots) :
    (exported stateDirectory walk roots generation).Readable := by
  have small : pathMax ≤ kMaxStringBytes := by decide
  rw [exported_readable_iff (tree.exportable few fits exist)]
  constructor
  · intro root member
    obtain ⟨filled, short⟩ := exist.plain root member
    exact ⟨filled, short.le.trans small⟩
  · intro entry member
    obtain ⟨names, content, -, file, -, short, rfl⟩ := tree.carried_file member
    refine ⟨short.le.trans small, ?_⟩
    simp [StateEntry.Settled, stillView_of_file file, fileView]

end QuietTrees

section Publishing

variable {disk : Disk} {snapshot : Bytes}

theorem rename_onto_file {a b : Loc} {content : Bytes}
    (source : get disk a = some (.file content)) (ha : a ≠ []) (hb : b ≠ [])
    (parent : get disk b.dropLast = some .dir) (apart : ¬ a <+: b) (apart' : ¬ b <+: a)
    (free : get disk b ≠ some .dir) : rename a b disk = some (move a b disk) := by
  have differ : a ≠ b := by
    rintro rfl
    exact apart (List.prefix_refl _)
  have onto : replaceable disk (.file content) b = true := by
    simp only [replaceable]
    cases found : get disk b with
    | none => rfl
    | some node =>
      cases node with
      | dir => exact absurd found free
      | file => rfl
  simp [rename, source, ha, hb, parent, differ, apart, apart', onto]

variable {out : Bytes} {d : Loc} {n t : Name}

theorem get_remove_outside {l p : Loc} (below : l ≠ []) (outside : ¬ l <+: p) :
    get (remove l disk) p = get disk p := by
  simp only [remove]
  split
  · rw [get_removeAll below, if_neg outside]
  · rfl

end Publishing

section RoundTrips

/-- The same metadata; roots are compared as paths. -/
structure IndexSnapshotInfo.Agrees (a b : IndexSnapshotInfo) : Prop where
  generation : a.generation = b.generation
  roots : a.roots.map generic = b.roots.map generic
  fileCount : a.fileCount = b.fileCount
  payloadBytes : a.payloadBytes = b.payloadBytes

variable {disk published : Disk} {stateDirectory snapshot target : Bytes} {walk : Walk}
  {roots : List Bytes} {generation : UInt64} {now : Nat × Nat} {d : Loc}

theorem RootsExist.kept (exist : RootsExist disk roots)
    (kept : ∀ l, get disk l = some .dir → get published l = some .dir) : RootsExist published roots := by
  refine ⟨exist.few, ?_, exist.short⟩
  intro root given
  have present := exist.present root given
  simp only [isDirectory, Bool.and_eq_true, beq_iff_eq] at present ⊢
  exact ⟨present.1, kept _ present.2⟩

/-- The container of a quiet tree can be imported wherever its roots are. -/
theorem QuietTree.importable (tree : QuietTree disk stateDirectory walk)
    (few : (carried stateDirectory walk.visits).length ≤ kMaxEntries)
    (fits : sizeTotal (carried stateDirectory walk.visits) < 2 ^ 64) (exist : RootsExist published roots)
    (bytes : openRead published snapshot =
      some (exported stateDirectory walk roots generation).encode)
    (way : NoFileOnWay [] d published) :
    Importable published snapshot d (exported stateDirectory walk roots generation) := by
  refine ⟨bytes, tree.readable few fits exist, ?_, ?_, ?_, way⟩
  · intro _ member
    obtain ⟨root, given, rfl⟩ := List.mem_map.mp member
    rw [pathUtf8, isDirectory_generic]
    exact exist.present root given
  · intro _ member
    obtain ⟨entry, found, rfl⟩ := List.mem_map.mp member
    obtain ⟨names, content, named, -, -, -, rfl⟩ := tree.carried_file found
    exact namesFile_joinNames named
  · have file : ∀ l ∈ places (exported stateDirectory walk roots generation).entries,
        ∃ content, get disk (locate stateDirectory ++ l) = some (.file content) := by
      intro _ place
      obtain ⟨_, member, rfl⟩ := List.mem_map.mp place
      obtain ⟨entry, found, rfl⟩ := List.mem_map.mp member
      obtain ⟨names, content, -, file, -, -, rfl⟩ := tree.carried_file found
      exact ⟨content, by rw [StateEntry.record, locate_joinNames, file]⟩
    intro a ha b hb above
    obtain ⟨content, fileA⟩ := file a ha
    obtain ⟨content', fileB⟩ := file b hb
    by_contra differ
    have dir := tree.closed.above ((List.prefix_append_right_inj (locate stateDirectory)).mpr above)
      (by simpa using differ) (by simp [fileB])
    rw [fileA] at dir
    cases dir

/-- A state directory `/s` with one file, beside a directory `/t/u`. -/
def smallDisk : Disk :=
  stateDisk ++ [([⟨lit "t", by decide⟩], .dir), ([⟨lit "t", by decide⟩, ⟨lit "u", by decide⟩], .dir)]

def smallWalk : Walk := { visits := [⟨false, fileView [indexName] (lit "ab")⟩] }

theorem smallTree : QuietTree smallDisk (lit "/s") smallWalk := by
  refine ⟨closed_of_entries (by decide), by decide +kernel, by decide, by decide +kernel, ?_, ?_,
    by decide +kernel, by decide +kernel⟩
  · intro visit member
    obtain rfl := List.mem_singleton.mp member
    decide +kernel
  · intro names named present
    obtain ⟨e, member, same⟩ := mem_of_get (by simp [named]) present
    have only : ∀ e ∈ smallDisk, locate (lit "/s") <+: e.1 → e.1 ≠ locate (lit "/s") →
        e.1 = locate (lit "/s") ++ [indexName] := by decide +kernel
    have shape := only e member (same ▸ List.prefix_append _ _) (by simp [same, named])
    rw [same, List.append_cancel_left_eq] at shape
    exact ⟨_, List.mem_singleton.mpr rfl, shape.symm⟩

theorem top_way {path : Bytes} {disk : Disk} (top : (locate path).dropLast = []) :
    NoFileOnWay [] (locate path).dropLast disk := top ▸ noFileOnWay_nil [] disk

/-- Three sparse files of the same content. -/
def sparseNames : List Name := [indexName, ⟨lit "b", by decide⟩, ⟨lit "c", by decide⟩]

def sparseWalk (content : Bytes) : Walk where
  visits := sparseNames.map fun name => ⟨false, fileView [name] content⟩

end RoundTrips
end Such.IndexSnapshot
