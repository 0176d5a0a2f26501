import Such.Base.FileSystem.Trail
import Such.Runtime.IndexSnapshot.RoundTrip

/-! What an export leaves at its destination: when inspection accepts what it published, and
when a failed export spares the snapshot that was there. -/
namespace Such.IndexSnapshot
open ByteText Wire FileSystem

section Limits

/-- Nobody touches a carried file between its three reads, and the system answers a size query
only under a path it takes. -/
structure Unchanging (stateDirectory : Bytes) (walk : Walk) : Prop where
  settled : ∀ visit ∈ walk.visits, visit.entry.Carried stateDirectory →
    (∀ size ∈ visit.entry.fileSize, size = visit.entry.atCrc.length) ∧
      visit.entry.atCopy = visit.entry.atCrc
  short : ∀ visit ∈ walk.visits, visit.entry.fileSize ≠ none →
    (visit.entry.path stateDirectory).length < pathMax

variable {fault : Option ExportFault} {walk : Walk} {disk published : Disk}
  {stateDirectory snapshot : Bytes} {roots : List Bytes} {generation : UInt64}
  {info : IndexSnapshotInfo}

theorem length_joinNames_le (stateDirectory : Bytes) (names : Loc) :
    (joinNames names).length ≤ (append stateDirectory (joinNames names)).length := by
  simp only [append]
  split
  · exact Nat.le_refl _
  · split <;> simp only [List.length_append, List.length_cons] <;> omega

theorem QuietTree.unchanging (tree : QuietTree disk stateDirectory walk) :
    Unchanging stateDirectory walk := by
  constructor
  · rintro visit found ⟨regular, -⟩
    have still := tree.still visit found
    rw [still] at regular ⊢
    obtain ⟨content, file⟩ := stillView_regular.mp regular
    rw [stillView_of_file file]
    simp [fileView]
  · intro visit found _
    exact tree.short visit found

/-- The strings of an unchanging tree are within the reader's limits, and its checksums are
those of the copied bytes. -/
theorem Unchanging.settles (still : Unchanging stateDirectory walk)
    (passed : ∀ visit ∈ walk.visits, visit.Passed stateDirectory) {entry : StateEntry}
    (member : entry ∈ carried stateDirectory walk.visits) :
    entry.relativeUtf8.length ≤ kMaxStringBytes ∧ entry.Settled := by
  have small : pathMax ≤ kMaxStringBytes := by decide
  obtain ⟨visit, found, travels, rfl⟩ := carried_of_mem member
  obtain ⟨size, sized⟩ := Option.ne_none_iff_exists'.mp ((passed visit found).2.2.2 travels).2.2
  obtain ⟨whole, same⟩ := still.settled visit found travels
  constructor
  · have short := still.short visit found (by simp [sized])
    have inside := length_joinNames_le stateDirectory visit.entry.names
    simp only [EntryView.path] at short
    simp only [EntryView.stateEntry, pathUtf8, generic_joinNames]
    omega
  · simp [StateEntry.Settled, EntryView.stateEntry, sized, whole size sized, same]

/-- What an unchanging tree's export published is accepted with the same metadata exactly when
no root path is empty or longer than the reader takes. -/
theorem inspect_exported_iff (fault : Option ExportFault) (walk : Walk) (disk : Disk)
    (stateDirectory snapshot : Bytes) (roots : List Bytes) (generation : UInt64)
    (info : IndexSnapshotInfo) (published : Disk) (still : Unchanging stateDirectory walk)
    (done : exportIndexSnapshot fault walk disk stateDirectory snapshot roots generation =
      .ok (info, published)) :
    (∃ inspected, inspectIndexSnapshot published snapshot = .ok inspected ∧
        info.Agrees inspected) ↔
      ∀ root ∈ roots, root ≠ [] ∧ (pathUtf8 root).length ≤ kMaxStringBytes := by
  obtain ⟨able, bytes, rfl⟩ := exportIndexSnapshot_eq_ok.mp done
  have readable : (exported stateDirectory walk roots generation).Readable ↔
      ∀ root ∈ roots, root ≠ [] ∧ (pathUtf8 root).length ≤ kMaxStringBytes := by
    rw [exported_readable_iff able]
    exact and_iff_left fun entry member => still.settles able.passed member
  rw [← readable, inspect_published bytes]
  constructor
  · rintro ⟨inspected, accepted, -⟩
    obtain ⟨c, same, good, -⟩ := inspectBytes_eq_ok.mp accepted
    rwa [Container.encode_inj (exported_fits able) good.toFits same]
  · intro good
    refine ⟨_, inspectBytes_eq_ok.mpr ⟨_, rfl, good, rfl⟩, rfl, ?_, ?_, ?_⟩
    · simp [Container.info, exported, containerOf, pathUtf8]
    · simp [Container.info, exported, containerOf]
    · simp [Container.info, exported, containerOf, payloadTotal_records able.copied]

def smallExport (roots : List Bytes) : Except Stopped (IndexSnapshotInfo × Disk) :=
  exportIndexSnapshot none smallWalk smallDisk (lit "/s") (lit "/o") roots 7

theorem small_export_accepted : Unchanging (lit "/s") smallWalk ∧
    smallExport [lit "/s"] = .ok (⟨1, 7, 2, 1, [lit "/s"]⟩, finalDisk (smallExport [lit "/s"])) ∧
    ((∃ inspected, inspectIndexSnapshot (finalDisk (smallExport [lit "/s"])) (lit "/o") =
        .ok inspected ∧ (⟨1, 7, 2, 1, [lit "/s"]⟩ : IndexSnapshotInfo).Agrees inspected) ↔
      ∀ root ∈ [lit "/s"], root ≠ [] ∧ (pathUtf8 root).length ≤ kMaxStringBytes) := by
  have run : smallExport [lit "/s"] =
      .ok (⟨1, 7, 2, 1, [lit "/s"]⟩, finalDisk (smallExport [lit "/s"])) := by decide +kernel
  exact ⟨smallTree.unchanging, run, inspect_exported_iff none smallWalk smallDisk (lit "/s")
    (lit "/o") [lit "/s"] 7 _ _ smallTree.unchanging run⟩

/-- An empty root is written and published, and then refused by inspection. -/
theorem empty_root_published_unreadable : ¬ ∀ info published, smallExport [[]] = .ok (info, published) →
    ∃ inspected, inspectIndexSnapshot published (lit "/o") = .ok inspected ∧
      info.Agrees inspected := by
  intro accepted
  have run : smallExport [[]] = .ok (⟨1, 7, 2, 1, [[]]⟩, finalDisk (smallExport [[]])) := by
    decide +kernel
  obtain ⟨inspected, read, -⟩ := accepted _ _ run
  have refused : inspectIndexSnapshot (finalDisk (smallExport [[]])) (lit "/o") =
      .error (.plain (lit "corrupt Such index snapshot root table")) := by decide +kernel
  rw [refused] at read
  cases read

end Limits

section OldSnapshot

variable {fault : Option ExportFault} {walk : Walk} {disk made left : Disk}
  {stateDirectory snapshot : Bytes} {roots : List Bytes} {generation : UInt64} {old out : Bytes}
  {failure : Failure} {entries : List StateEntry}

/-- The export gets as far as its temporary file. -/
structure Begun (fault : Option ExportFault) (walk : Walk) (disk : Disk)
    (stateDirectory snapshot : Bytes) (roots : List Bytes) (made : Disk) : Prop where
  present : isDirectory disk stateDirectory = true
  passed : ∀ visit ∈ walk.visits, visit.Passed stateDirectory
  few : (carried stateDirectory walk.visits).length ≤ kMaxEntries
  fits : sizeTotal (carried stateDirectory walk.visits) < 2 ^ 64
  fewRoots : roots.length ≤ kMaxRoots
  directory : makeOutputDirectory fault snapshot disk = some made

/-- Every refusal after that removes the temporary file; only a failing rename comes after the
removal of the snapshot. -/
theorem publishSnapshot_eq_error
    (stopped : publishSnapshot fault made (snapshot ++ lit ".tmp") snapshot roots generation
      entries = .error (failure, left)) :
    left = removeAllAt (snapshot ++ lit ".tmp") made ∨
      ∃ out l, writeSnapshot (ExportFault.limit fault) roots generation entries = .ok out ∧
        openWrite made (snapshot ++ lit ".tmp") = some l ∧
        (fault = some .publish ∨ renameAt (snapshot ++ lit ".tmp") snapshot
          (if fault = some .remove then put l (.file out) made
            else removeAt snapshot (put l (.file out) made)) = none) ∧
        left = removeAllAt (snapshot ++ lit ".tmp")
          (if fault = some .remove then put l (.file out) made
            else removeAt snapshot (put l (.file out) made)) := by
  simp only [publishSnapshot, bind_eq_error, require_eq_error, require_eq_ok, refuse_eq_error,
    mapError_eq_error, mapError_eq_ok, Option.ite_none_left_eq_some, Prod.mk.injEq, pure,
    Except.pure, reduceCtorEq, and_false, exists_false, or_false] at stopped
  rcases stopped with ⟨-, -, rfl⟩ | ⟨l, ⟨-, opened⟩, later⟩
  · exact .inl rfl
  · rcases later with ⟨_, -, -, rfl⟩ | ⟨out, written, ⟨-, -, rfl⟩ | ⟨-, -, unpublished, -, rfl⟩⟩
    · exact .inl rfl
    · exact .inl rfl
    · refine .inr ⟨out, l, written, opened, ?_, rfl⟩
      split at unpublished
      · rename_i broken
        exact .inl broken
      · exact .inr unpublished

/-- A begun export stops exactly where its publication does. -/
theorem Begun.stopped_iff (begun : Begun fault walk disk stateDirectory snapshot roots made) :
    exportIndexSnapshot fault walk disk stateDirectory snapshot roots generation =
        .error (failure, left) ↔
      publishSnapshot fault made (snapshot ++ lit ".tmp") snapshot roots generation
        (carried stateDirectory walk.visits) = .error (failure, left) := by
  have collected := collectStateEntries_eq_ok.mpr
    ⟨begun.present, begun.passed, rfl, rfl, begun.few, begun.fits⟩
  have few : decide (kMaxRoots < roots.length) = false := by
    simpa using begun.fewRoots
  simp only [exportIndexSnapshot, collected, Except.mapError, few, refuse, begun.directory, require,
    bind_eq_error, Except.ok.injEq, Bool.false_eq_true, if_false, pure, Except.pure, reduceCtorEq,
    and_false, exists_false, or_false, false_or, exists_eq_left',
    true_and, exists_const]

/-- An export that stops before has changed nothing. -/
theorem unbegun_keeps
    (stopped : exportIndexSnapshot fault walk disk stateDirectory snapshot roots generation =
      .error (failure, left))
    (unbegun : ∀ made, ¬ Begun fault walk disk stateDirectory snapshot roots made) :
    left = disk := by
  simp only [exportIndexSnapshot, bind_eq_error, Prod.exists, mapError_eq_error, mapError_eq_ok,
    collectStateEntries_eq_ok, refuse_eq_error, refuse_eq_ok, require_eq_error, require_eq_ok,
    Prod.mk.injEq, decide_eq_false_iff_not, not_lt, pure, Except.pure, reduceCtorEq, and_false,
    exists_false, or_false] at stopped
  rcases stopped with ⟨_, -, -, rfl⟩ | ⟨_, _, ⟨present, passed, rfl, rfl, few, fits⟩, later⟩
  · rfl
  · rcases later with ⟨-, -, rfl⟩ | ⟨-, fewRoots, ⟨-, -, rfl⟩ | ⟨made, directory, -⟩⟩
    · rfl
    · rfl
    · exact absurd ⟨present, passed, few, fits, fewRoots, directory⟩ (unbegun made)

/-- Making the output directory keeps the destination's file, and the way to it leads through
directories. -/
theorem makeOutputDirectory_keeps (clear : 0 ∉ snapshot)
    (directory : makeOutputDirectory fault snapshot disk = some made)
    (held : get disk (locate snapshot) = some (.file old)) :
    get made (locate snapshot) = some (.file old) ∧ Walkable made [] (components (stem snapshot)) := by
  have stemClear : 0 ∉ stem snapshot := fun zero => clear (by
    rw [← stem_append_filename snapshot]
    exact List.mem_append_left _ zero)
  simp only [makeOutputDirectory] at directory
  split at directory
  · rename_i empty
    obtain rfl := Option.some.inj directory
    refine ⟨held, ?_⟩
    rw [← components_parentPath, List.isEmpty_iff.mp empty]
    intro lead above
    rw [List.prefix_nil.mp above, List.foldl_nil, get_root]
  · split at directory
    · cases directory
    · have parts := components_cstr_parentPath snapshot
      rw [if_neg stemClear] at parts
      rw [← parts, createDirectories_keeps directory (by simp [held])]
      exact ⟨held, walkable_of_createDirectories directory⟩

/-- Without a name at its end a path through directories leads to a directory. -/
theorem exists_name_of_file (clear : 0 ∉ snapshot)
    (walkable : Walkable made [] (components (stem snapshot)))
    (file : get made (locate snapshot) = some (.file old)) :
    ∃ n, Name.ofBytes? (filename snapshot) = some n := by
  have place := locate_eq snapshot
  rw [cstr_of_notMem clear] at place
  cases named : Name.ofBytes? (filename snapshot) with
  | some n => exact ⟨n, rfl⟩
  | none =>
    have up : locate snapshot <+: (components (stem snapshot)).foldl enter [] := by
      rw [place]
      split
      · exact List.prefix_refl _
      · rw [List.foldl_cons, List.foldl_nil, enter, named]
        dsimp only
        split
        · exact List.dropLast_prefix _
        · exact List.prefix_refl _
    rw [walkable.above up] at file
    cases file

/-- A file at the destination has its temporary file beside it, in a directory. -/
theorem exists_beside (clear : 0 ∉ snapshot)
    (directory : makeOutputDirectory fault snapshot disk = some made)
    (held : get disk (locate snapshot) = some (.file old)) :
    get made (locate snapshot) = some (.file old) ∧ ∃ d n t, n ≠ t ∧ cstr snapshot ≠ [] ∧
      cstr (snapshot ++ lit ".tmp") ≠ [] ∧ locate snapshot = d ++ [n] ∧
      locate (snapshot ++ lit ".tmp") = d ++ [t] ∧ get made d = some .dir := by
  obtain ⟨file, walkable⟩ := makeOutputDirectory_keeps clear directory held
  obtain ⟨n, named⟩ := exists_name_of_file clear walkable file
  have noZero : 0 ∉ snapshot ++ lit ".tmp" := by simp [clear, tmp_notMem.1]
  have bytes := Name.bytes_of_ofBytes? named
  have filled : (filename snapshot).isEmpty = false := by
    rw [← bytes]
    simpa using n.valid.1
  have place := locate_eq snapshot
  rw [cstr_of_notMem clear, filled, if_neg Bool.false_ne_true, List.foldl_cons, List.foldl_nil, enter,
    named] at place
  obtain ⟨sameStem, longer⟩ := stem_append_suffix snapshot tmp_notMem.2.1
  have valid := isName_append n (show IsSuffix (lit ".tmp") by decide)
  have place' := locate_eq (snapshot ++ lit ".tmp")
  rw [cstr_of_notMem noZero, sameStem, longer, ← bytes, List.isEmpty_eq_false_iff.mpr valid.1,
    if_neg Bool.false_ne_true, List.foldl_cons, List.foldl_nil] at place'
  refine ⟨file, _, n, ⟨_, valid⟩, ?_, ?_, ?_, place, ?_, walkable.above (List.prefix_refl _)⟩
  · intro same
    exact tmp_notMem.2.2 (List.append_right_eq_self.mp (congrArg Name.bytes same).symm)
  · rw [cstr_of_notMem clear]
    rintro rfl
    simp [filename] at filled
  · rw [cstr_of_notMem noZero]
    simp [tmp_notMem.2.2]
  · rw [place', enter_name _ ⟨_, valid⟩]

/-- The export removes the snapshot and then fails to put its own in its place. A path with a
NUL is cut short by the system, and is then its own temporary file. -/
def LosesSnapshot (fault : Option ExportFault) (walk : Walk) (disk : Disk)
    (stateDirectory snapshot : Bytes) (roots : List Bytes) (generation : UInt64) : Prop :=
  ∃ made, Begun fault walk disk stateDirectory snapshot roots made ∧
    (0 ∈ snapshot ∨ fault = some .publish ∧
      Exportable fault walk disk stateDirectory roots generation ∧
      openWrite made (snapshot ++ lit ".tmp") ≠ none)

theorem closed_made (closed : Closed disk)
    (directory : makeOutputDirectory fault snapshot disk = some made) : Closed made := by
  simp only [makeOutputDirectory] at directory
  split at directory
  · rwa [← Option.some.inj directory]
  · split at directory
    · cases directory
    · exact closed_createDirectories closed directory

section Beside
variable {d : Loc} {n t : Name}

theorem get_removeAt_beside (closed : Closed made) (differ : n ≠ t) (filled : cstr snapshot ≠ [])
    (place : locate snapshot = d ++ [n]) (file : get made (d ++ [n]) = some (.file old)) :
    get (removeAt snapshot (put (d ++ [t]) (.file out) made)) (d ++ [n]) = none := by
  have empty : isEmptyDir (put (d ++ [t]) (.file out) made) (d ++ [n]) = true := by
    have inside := closed.isEmptyDir_file file
    simp only [isEmptyDir] at inside ⊢
    rw [put, List.all_cons, inside, Bool.and_true, Bool.or_eq_true]
    left
    rw [Bool.not_eq_true', ← Bool.not_eq_true, List.isPrefixOf_iff_prefix]
    exact sibling_not_above differ
  rw [removeAt, if_neg (by simpa using filled), place, remove, if_pos empty,
    get_removeAll (by simp), if_pos (List.prefix_refl _)]

/-- Beside a file the temporary file takes its place, unless that step fails. -/
theorem renameAt_beside (differ : n ≠ t) (filled : cstr snapshot ≠ [])
    (filled' : cstr (snapshot ++ lit ".tmp") ≠ []) (place : locate snapshot = d ++ [n])
    (place' : locate (snapshot ++ lit ".tmp") = d ++ [t]) (parent : get made d = some .dir)
    (file : get made (d ++ [n]) = some (.file old)) :
    renameAt (snapshot ++ lit ".tmp") snapshot
      (if fault = some .remove then put (d ++ [t]) (.file out) made
        else removeAt snapshot (put (d ++ [t]) (.file out) made)) ≠ none := by
  have written : ∀ q, get (put (d ++ [t]) (.file out) made) q =
      if q = d ++ [t] then some (.file out) else get made q := fun q => get_put _ (by simp)
  have off : ∀ q, ¬ d ++ [n] <+: q →
      get (removeAt snapshot (put (d ++ [t]) (.file out) made)) q =
        get (put (d ++ [t]) (.file out) made) q := by
    intro q outside
    rw [removeAt, if_neg (by simpa using filled), place, get_remove_outside (by simp) outside]
  have target : get (removeAt snapshot (put (d ++ [t]) (.file out) made)) (d ++ [n]) ≠
      some .dir := by
    rw [removeAt, if_neg (by simpa using filled), place]
    rcases get_remove (d ++ [n]) (d ++ [n]) with same | gone
    · rw [same, written, if_neg (by simpa using differ), file]
      simp
    · simp [gone]
  rw [renameAt, if_neg (by simp [filled, filled']), place, place']
  have done : ∀ tree : Disk, get tree (d ++ [t]) = some (.file out) → get tree d = some .dir →
      get tree (d ++ [n]) ≠ some .dir → rename (d ++ [t]) (d ++ [n]) tree ≠ none := by
    intro tree source dir free
    rw [rename_onto_file source (by simp) (by simp) (by simpa using dir)
      (sibling_not_above differ.symm) (sibling_not_above differ) free]
    simp
  split
  · apply done
    · rw [written, if_pos rfl]
    · rw [written, if_neg (by simp), parent]
    · rw [written, if_neg (by simpa using differ), file]
      simp
  · apply done
    · rw [off _ (sibling_not_above differ), written, if_pos rfl]
    · rw [off _ sibling_not_above_parent, written, if_neg (by simp), parent]
    · exact target

end Beside

theorem Begun.exportable (begun : Begun fault walk disk stateDirectory snapshot roots made)
    (written : writeSnapshot (ExportFault.limit fault) roots generation
      (carried stateDirectory walk.visits) = .ok out) :
    Exportable fault walk disk stateDirectory roots generation := by
  obtain ⟨shortRoots, copied, rfl, room⟩ := writeSnapshot_eq_ok.mp written
  exact ⟨begun.present, begun.passed, begun.few, begun.fits, begun.fewRoots, shortRoots, copied,
    room⟩

/-- When the rename fails, so does the export, after the snapshot is gone. -/
theorem publishSnapshot_unpublished
    (able : Exportable (some .publish) walk disk stateDirectory roots generation) {l : Loc}
    (opened : openWrite made (snapshot ++ lit ".tmp") = some l) :
    publishSnapshot (some .publish) made (snapshot ++ lit ".tmp") snapshot roots generation
        (carried stateDirectory walk.visits) =
      .error (.coded (lit "could not publish snapshot: "), removeAllAt (snapshot ++ lit ".tmp")
        (removeAt snapshot (put l
          (.file (exported stateDirectory walk roots generation).encode) made))) := by
  have written := writeSnapshot_eq_ok.mpr ⟨able.shortRoots, able.copied, rfl, able.room⟩
  simp [publishSnapshot, opened, written, require, refuse, Except.mapError, bind, Except.bind,
    exported]

/-- With a NUL in its path the snapshot goes with the temporary file. -/
theorem Begun.loses_of_nul (begun : Begun fault walk disk stateDirectory snapshot roots made)
    (zero : 0 ∈ snapshot) (held : get disk (locate snapshot) = some (.file old))
    (failed : exportIndexSnapshot fault walk disk stateDirectory snapshot roots generation =
      .error (failure, left)) : get left (locate snapshot) = none := by
  have same : cstr (snapshot ++ lit ".tmp") = cstr snapshot := cstr_append_of_mem zero _
  have place : locate (snapshot ++ lit ".tmp") = locate snapshot := by
    rw [locate, same, locate]
  have below : locate snapshot ≠ [] := by
    intro root
    rw [root] at held
    cases held
  have filled : cstr snapshot ≠ [] := by
    intro empty
    rw [locate, empty] at below
    exact below rfl
  have gone : ∀ tree, get (removeAllAt (snapshot ++ lit ".tmp") tree) (locate snapshot) = none := by
    intro tree
    rw [removeAllAt, same, if_neg (by simpa using filled), place, get_removeAll below,
      if_pos (List.prefix_refl _)]
  rcases publishSnapshot_eq_error (begun.stopped_iff.mp failed) with rfl | ⟨_, _, _, _, _, rfl⟩
  · exact gone made
  · exact gone _

/-- Without one it goes exactly when the rename fails. -/
theorem Begun.keeps_iff (begun : Begun fault walk disk stateDirectory snapshot roots made)
    (closed : Closed disk) (clear : 0 ∉ snapshot)
    (held : get disk (locate snapshot) = some (.file old))
    (failed : exportIndexSnapshot fault walk disk stateDirectory snapshot roots generation =
      .error (failure, left)) :
    get left (locate snapshot) = some (.file old) ↔
      ¬ (fault = some .publish ∧ Exportable fault walk disk stateDirectory roots generation ∧
        openWrite made (snapshot ++ lit ".tmp") ≠ none) := by
  have stopped := begun.stopped_iff.mp failed
  obtain ⟨file, d, n, t, differ, filled, filled', place, place', parent⟩ :=
    exists_beside clear begun.directory held
  rw [place] at file ⊢
  have spares : ∀ tree, get (removeAllAt (snapshot ++ lit ".tmp") tree) (d ++ [n]) =
      get tree (d ++ [n]) := by
    intro tree
    rw [removeAllAt, if_neg (by simpa using filled'), place', get_removeAll (by simp),
      if_neg (sibling_not_above differ.symm)]
  have opens : ∀ l, openWrite made (snapshot ++ lit ".tmp") = some l → l = d ++ [t] := by
    intro l opened
    obtain ⟨_, -, -, at_, -⟩ := openWrite_eq_some.mp opened
    rw [at_, place']
  constructor
  · rintro kept ⟨rfl, able, opened⟩
    obtain ⟨l, opened⟩ := Option.ne_none_iff_exists'.mp opened
    obtain rfl := opens l opened
    rw [publishSnapshot_unpublished able opened] at stopped
    obtain ⟨-, rfl⟩ := Prod.mk.inj (Except.error.inj stopped)
    rw [spares, get_removeAt_beside (closed_made closed begun.directory) differ filled place
      file] at kept
    cases kept
  · intro published
    rcases publishSnapshot_eq_error stopped with rfl | ⟨out, l, written, opened, broken, -⟩
    · rw [spares, file]
    · obtain rfl := opens l opened
      rcases broken with rfl | unpublished
      · exact absurd ⟨rfl, begun.exportable written, by simp [opened]⟩ published
      · exact absurd unpublished
          (renameAt_beside differ filled filled' place place' parent file)

/-- A failed export keeps the snapshot that was at its destination exactly unless the step that
fails is the rename, for which the snapshot has been removed already. -/
theorem failed_export_keeps_iff (fault : Option ExportFault) (walk : Walk) (disk : Disk)
    (stateDirectory snapshot : Bytes) (roots : List Bytes) (generation : UInt64) (old : Bytes)
    (failure : Failure) (left : Disk) (closed : Closed disk)
    (held : get disk (locate snapshot) = some (.file old))
    (failed : exportIndexSnapshot fault walk disk stateDirectory snapshot roots generation =
      .error (failure, left)) :
    get left (locate snapshot) = some (.file old) ↔
      ¬ LosesSnapshot fault walk disk stateDirectory snapshot roots generation := by
  by_cases reached : ∃ made, Begun fault walk disk stateDirectory snapshot roots made
  · obtain ⟨made, begun⟩ := reached
    have only : LosesSnapshot fault walk disk stateDirectory snapshot roots generation ↔
        0 ∈ snapshot ∨ fault = some .publish ∧
          Exportable fault walk disk stateDirectory roots generation ∧
          openWrite made (snapshot ++ lit ".tmp") ≠ none := by
      constructor
      · rintro ⟨made', begun', lost⟩
        rwa [Option.some.inj (begun.directory.symm.trans begun'.directory)]
      · exact fun lost => ⟨made, begun, lost⟩
    rw [only, not_or]
    by_cases zero : 0 ∈ snapshot
    · rw [begun.loses_of_nul zero held failed]
      simp [zero]
    · rw [begun.keeps_iff closed zero held failed]
      exact (and_iff_right zero).symm
  · rw [unbegun_keeps failed fun made begun => reached ⟨made, begun⟩]
    refine iff_of_true held ?_
    rintro ⟨made, begun, -⟩
    exact reached ⟨made, begun⟩

/-- A tree with a snapshot `/o` to be replaced. -/
def savedSnapshot : Disk := smallDisk ++ [([⟨lit "o", isName_o⟩], .file (lit "old"))]

def refusedExport (fault : ExportFault) : Except Stopped (IndexSnapshotInfo × Disk) :=
  exportIndexSnapshot (some fault) smallWalk savedSnapshot (lit "/s") (lit "/o") [lit "/s"] 7

theorem closed_savedSnapshot : Closed savedSnapshot := closed_of_entries (by decide +kernel)

/-- With the disk full after ten bytes the old snapshot stays. -/
theorem full_disk_keeps : Closed savedSnapshot ∧
    get savedSnapshot (locate (lit "/o")) = some (.file (lit "old")) ∧
    refusedExport (.write 10) =
      .error (.plain (lit "could not write snapshot header"), finalDisk (refusedExport (.write 10))) ∧
    (get (finalDisk (refusedExport (.write 10))) (locate (lit "/o")) = some (.file (lit "old")) ↔
      ¬ LosesSnapshot (some (.write 10)) smallWalk savedSnapshot (lit "/s") (lit "/o")
        [lit "/s"] 7) := by
  have held : get savedSnapshot (locate (lit "/o")) = some (.file (lit "old")) := by decide +kernel
  have run : refusedExport (.write 10) = .error
      (.plain (lit "could not write snapshot header"), finalDisk (refusedExport (.write 10))) := by
    decide +kernel
  exact ⟨closed_savedSnapshot, held, run, failed_export_keeps_iff (some (.write 10)) smallWalk
    savedSnapshot (lit "/s") (lit "/o") [lit "/s"] 7 (lit "old") _ _ closed_savedSnapshot held run⟩

/-- When the last rename fails, there is no snapshot left at all. -/
theorem failed_rename_loses : ¬ ∀ failure left,
    get savedSnapshot (locate (lit "/o")) = some (.file (lit "old")) →
    refusedExport .publish = .error (failure, left) →
      get left (locate (lit "/o")) = some (.file (lit "old")) := by
  intro keeps
  have held : get savedSnapshot (locate (lit "/o")) = some (.file (lit "old")) := by decide +kernel
  have run : refusedExport .publish = .error
      (.coded (lit "could not publish snapshot: "), finalDisk (refusedExport .publish)) := by
    decide +kernel
  have lost : get (finalDisk (refusedExport .publish)) (locate (lit "/o")) = none := by
    decide +kernel
  have kept := keeps _ _ held run
  rw [lost] at kept
  cases kept

end OldSnapshot
end Such.IndexSnapshot
