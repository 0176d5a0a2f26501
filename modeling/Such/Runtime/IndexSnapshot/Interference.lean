import Such.Runtime.IndexSnapshot.Export

/-! Exports that race with writers of the index, and exports whose walk breaks off. -/
namespace Such.IndexSnapshot
open ByteText Wire FileSystem

variable {fault : Option ExportFault} {walk : Walk} {disk : Disk}
  {stateDirectory snapshot : Bytes} {roots : List Bytes} {generation : UInt64}

section Writers

/-- Either the export refuses, or inspection accepts what it published. -/
def PublishesInspectable (fault : Option ExportFault) (walk : Walk) (disk : Disk)
    (stateDirectory snapshot : Bytes) (roots : List Bytes) (generation : UInt64) : Prop :=
  ∀ info published,
    exportIndexSnapshot fault walk disk stateDirectory snapshot roots generation =
      .ok (info, published) →
    ∃ info', inspectIndexSnapshot published snapshot = .ok info'

/-- The checksum pass and the copy saw bytes of the same checksum. -/
def StateEntry.Settled (entry : StateEntry) : Prop :=
  crc32Update 0 entry.view.atCrc = crc32Update 0 (entry.view.atCopy.take entry.size)

theorem validRelativePath_joinNames {names : Loc} (below : names ≠ []) :
    validRelativePath (joinNames names) = true := by
  have filled : (joinNames names).isEmpty = false := by simpa using below
  have plain : ((components (joinNames names)).all fun c => c != [46] && c != [46, 46]) = true := by
    rw [components_joinNames, List.all_eq_true]
    intro c member
    obtain ⟨name, -, rfl⟩ := List.mem_map.mp member
    simpa using name.valid.2.2.2
  rw [validRelativePath, filled, plain, isAbsolute_joinNames]
  rfl

theorem carried_of_mem {entry : StateEntry} (member : entry ∈ carried stateDirectory walk.visits) :
    ∃ visit ∈ walk.visits, visit.entry.Carried stateDirectory ∧
      entry = visit.entry.stateEntry stateDirectory := by
  simp only [carried, List.mem_map, List.mem_filter, decide_eq_true_eq] at member
  obtain ⟨_, ⟨⟨visit, found, rfl⟩, travels⟩, rfl⟩ := member
  exact ⟨visit, found, travels, rfl⟩

theorem relativeUtf8_of_mem {entry : StateEntry} (member : entry ∈ carried stateDirectory walk.visits) :
    entry.relativeUtf8 = joinNames entry.view.names := by
  obtain ⟨visit, -, -, rfl⟩ := carried_of_mem member
  simp [EntryView.stateEntry, pathUtf8]

theorem names_ne_nil_of_mem (passed : ∀ visit ∈ walk.visits, visit.Passed stateDirectory)
    {entry : StateEntry} (member : entry ∈ carried stateDirectory walk.visits) : entry.view.names ≠ [] := by
  obtain ⟨visit, found, travels, rfl⟩ := carried_of_mem member
  exact ((passed visit found).2.2.2 travels).2.1

theorem payloadTotal_records {entries : List StateEntry} (copied : ∀ entry ∈ entries, entry.Copied) :
    payloadTotal (entries.map (·.record)) = sizeTotal entries := by
  simp only [payloadTotal, sizeTotal, List.map_map]
  congr 1
  refine List.map_congr_left fun entry member => ?_
  simp [StateEntry.record, (copied entry member).2.2]

/-- Inspection takes an exported container exactly when every string is within its limit
and every checksum was taken of the bytes that were copied. -/
theorem exported_readable_iff (able : Exportable fault walk disk stateDirectory roots generation) :
    (exported stateDirectory walk roots generation).Readable ↔
      (∀ root ∈ roots, root ≠ [] ∧ (pathUtf8 root).length ≤ kMaxStringBytes) ∧
        ∀ entry ∈ carried stateDirectory walk.visits,
          entry.relativeUtf8.length ≤ kMaxStringBytes ∧ entry.Settled := by
  constructor
  · intro readable
    constructor
    · intro root member
      obtain ⟨filled, short⟩ := readable.roots.2 _ (List.mem_map_of_mem member)
      exact ⟨by simpa [pathUtf8] using filled, short⟩
    · intro entry member
      obtain ⟨short, -, sum⟩ := readable.sound _ (List.mem_map_of_mem member)
      exact ⟨short, sum⟩
  · rintro ⟨plain, settled⟩
    refine ⟨⟨?_, ?_⟩, ?_, ?_, ?_⟩
    · simpa [exported, containerOf] using able.fewRoots
    · intro _ member
      obtain ⟨root, given, rfl⟩ := List.mem_map.mp member
      obtain ⟨filled, short⟩ := plain root given
      exact ⟨by simpa [pathUtf8] using filled, short⟩
    · simpa [exported, containerOf] using able.few
    · intro _ member
      obtain ⟨entry, found, rfl⟩ := List.mem_map.mp member
      obtain ⟨short, sum⟩ := settled entry found
      refine ⟨short, ?_, sum⟩
      change validRelativePath entry.relativeUtf8 = true
      rw [relativeUtf8_of_mem found]
      exact validRelativePath_joinNames (names_ne_nil_of_mem able.passed found)
    · change payloadTotal ((carried stateDirectory walk.visits).map (·.record)) < 2 ^ 64
      rw [payloadTotal_records able.copied]
      exact able.fits

theorem exported_fits (able : Exportable fault walk disk stateDirectory roots generation) :
    (exported stateDirectory walk roots generation).Fits := by
  have small : kMaxRoots < 2 ^ 32 ∧ kMaxEntries < 2 ^ 32 := by decide
  refine ⟨?_, ?_, ?_, ?_, ?_⟩
  · have := able.fewRoots
    simp only [exported, containerOf, List.length_map]
    omega
  · intro _ member
    obtain ⟨root, given, rfl⟩ := List.mem_map.mp member
    exact able.shortRoots root given
  · have := able.few
    simp only [exported, containerOf, List.length_map]
    omega
  · intro _ member
    obtain ⟨entry, found, rfl⟩ := List.mem_map.mp member
    exact (able.copied entry found).2.1
  · intro _ member
    obtain ⟨entry, found, rfl⟩ := List.mem_map.mp member
    have part : entry.size ≤ sizeTotal (carried stateDirectory walk.visits) :=
      List.le_sum_of_mem (List.mem_map_of_mem found)
    have whole := able.fits
    simp only [StateEntry.record, List.length_take]
    omega

theorem inspect_published {published : Disk}
    (done : Publishes fault disk snapshot (exported stateDirectory walk roots generation).encode
      published) :
    inspectIndexSnapshot published snapshot =
      inspectBytes (exported stateDirectory walk roots generation).encode := by
  simp only [inspectIndexSnapshot, done.openRead]
  rfl

/-- A published snapshot is accepted exactly when no writer came between the checksum pass and
the copy in a way that changes the checksum of the copied bytes. -/
theorem publishesInspectable_iff (fault : Option ExportFault) (walk : Walk) (disk : Disk)
    (stateDirectory snapshot : Bytes) (roots : List Bytes) (generation : UInt64) :
    PublishesInspectable fault walk disk stateDirectory snapshot roots generation ↔
      (Exportable fault walk disk stateDirectory roots generation →
        (∃ published, Publishes fault disk snapshot
          (exported stateDirectory walk roots generation).encode published) →
        (∀ root ∈ roots, root ≠ [] ∧ (pathUtf8 root).length ≤ kMaxStringBytes) ∧
          ∀ entry ∈ carried stateDirectory walk.visits,
            entry.relativeUtf8.length ≤ kMaxStringBytes ∧ entry.Settled) := by
  constructor
  · intro inspectable able ⟨published, done⟩
    obtain ⟨info, accepted⟩ :=
      inspectable _ published (exportIndexSnapshot_eq_ok.mpr ⟨able, done, rfl⟩)
    rw [inspect_published done] at accepted
    obtain ⟨c, same, readable, -⟩ := inspectBytes_eq_ok.mp accepted
    rw [← exported_readable_iff able, Container.encode_inj (exported_fits able) readable.toFits same]
    exact readable
  · intro settled info published exported_
    obtain ⟨able, done, -⟩ := exportIndexSnapshot_eq_ok.mp exported_
    have readable := (exported_readable_iff able).mpr (settled able ⟨published, done⟩)
    exact ⟨_, by rw [inspect_published done]; exact inspectBytes_eq_ok.mpr ⟨_, rfl, readable, rfl⟩⟩

theorem isName_a : IsName (lit "a") := by decide
theorem isName_s : IsName (lit "s") := by decide
theorem isName_o : IsName (lit "o") := by decide

/-- A state directory `/s` with one file, seen at one byte by the size query and at two bytes
by both later passes. -/
def indexName : Name := ⟨lit "a", isName_a⟩
def stateName : Name := ⟨lit "s", isName_s⟩
def stateDisk : Disk := [([stateName], .dir), ([stateName, indexName], .file (lit "ab"))]

def growingVisit : Visit :=
  { code := false
    entry := { names := [indexName], status := some .regular, relativizes := true,
               fileSize := some 1, opens := true, atCrc := lit "ab", atCopy := lit "ab" } }

def growingWalk : Walk := { visits := [growingVisit] }

def growingExport : Except Stopped (IndexSnapshotInfo × Disk) :=
  exportIndexSnapshot none growingWalk stateDisk (lit "/s") (lit "/o") [] 0

theorem growing_file_published_unreadable :
    ¬ PublishesInspectable none growingWalk stateDisk (lit "/s") (lit "/o") [] 0 := by
  intro accepted
  have run : growingExport = .ok (⟨1, 0, 1, 1, []⟩, finalDisk growingExport) := by decide +kernel
  obtain ⟨info, inspected⟩ := accepted _ _ run
  have refused : inspectIndexSnapshot (finalDisk growingExport) (lit "/o") =
      .error (crcMismatch (lit "a")) := by decide +kernel
  rw [refused] at inspected
  cases inspected

end Writers

section BrokenWalks

/-- Every file of the tree that the export should carry has an entry in the published file. -/
def RecordsAll (all : List Visit) (stateDirectory : Bytes) (published : Disk)
    (snapshot : Bytes) : Prop :=
  ∃ c : Container, c.Fits ∧ openRead published snapshot = some c.encode ∧
    ∀ visit ∈ all, visit.entry.Carried stateDirectory →
      ∃ e ∈ c.entries, e.path = joinNames visit.entry.names

/-- The walk that breaks off after `reached` entries: an error makes the iterator the end iterator. -/
def brokenOff (all : List Visit) (reached : Nat) : Walk :=
  { visits := all.take reached, code := true }

theorem joinNames_inj {a b : Loc} (same : joinNames a = joinNames b) : a = b := by
  have parts : a.map Name.bytes = b.map Name.bytes := by
    rw [← components_joinNames, same, components_joinNames]
  refine List.map_injective_iff.mpr (fun x y same => ?_) parts
  cases x
  cases y
  simpa using same

theorem exists_record_of_carried {visit : Visit} (member : visit ∈ walk.visits)
    (travels : visit.entry.Carried stateDirectory) :
    ∃ e ∈ (exported stateDirectory walk roots generation).entries,
      e.path = joinNames visit.entry.names := by
  refine ⟨(visit.entry.stateEntry stateDirectory).record, ?_, ?_⟩
  · refine List.mem_map_of_mem ?_
    simp only [carried, List.mem_map, List.mem_filter, decide_eq_true_eq]
    exact ⟨visit.entry, ⟨⟨visit, member, rfl⟩, travels⟩, rfl⟩
  · simp [StateEntry.record, EntryView.stateEntry, pathUtf8]

theorem visit_of_record {e : Record}
    (member : e ∈ (exported stateDirectory walk roots generation).entries) :
    ∃ visit ∈ walk.visits, e.path = joinNames visit.entry.names := by
  obtain ⟨entry, found, rfl⟩ := List.mem_map.mp member
  obtain ⟨visit, seen, -, rfl⟩ := carried_of_mem found
  exact ⟨visit, seen, by simp [StateEntry.record, EntryView.stateEntry, pathUtf8]⟩

/-- An export whose walk breaks off is complete exactly when nothing to carry was left. -/
theorem recordsAll_iff (fault : Option ExportFault) (all : List Visit)
    (once : (all.map (·.entry.names)).Nodup) (reached : Nat) (disk : Disk)
    (stateDirectory snapshot : Bytes) (roots : List Bytes) (generation : UInt64) :
    (∀ info published,
      exportIndexSnapshot fault (brokenOff all reached) disk stateDirectory snapshot roots
          generation = .ok (info, published) →
        RecordsAll all stateDirectory published snapshot) ↔
      (Exportable fault (brokenOff all reached) disk stateDirectory roots generation →
        (∃ published, Publishes fault disk snapshot
          (exported stateDirectory (brokenOff all reached) roots generation).encode published) →
        ∀ visit ∈ all.drop reached, ¬ visit.entry.Carried stateDirectory) := by
  constructor
  · intro complete able ⟨published, done⟩ visit missed travels
    obtain ⟨c, fits, read, recorded⟩ :=
      complete _ published (exportIndexSnapshot_eq_ok.mpr ⟨able, done, rfl⟩)
    rw [done.openRead] at read
    have same := Container.encode_inj (exported_fits able) fits (Option.some.inj read)
    obtain ⟨e, member, path⟩ := recorded visit (List.mem_of_mem_drop missed) travels
    rw [← same] at member
    obtain ⟨other, seen, path'⟩ := visit_of_record member
    have names : other.entry.names = visit.entry.names := joinNames_inj (path'.symm.trans path)
    rw [← List.take_append_drop reached all, List.map_append, List.nodup_append] at once
    exact once.2.2 _ (List.mem_map_of_mem seen) _ (List.mem_map_of_mem missed) names
  · intro nothing info published exported_
    obtain ⟨able, done, -⟩ := exportIndexSnapshot_eq_ok.mp exported_
    refine ⟨_, exported_fits able, done.openRead, fun visit member travels => ?_⟩
    rw [← List.take_append_drop reached all, List.mem_append] at member
    rcases member with seen | missed
    · exact exists_record_of_carried seen travels
    · exact absurd travels (nothing able ⟨published, done⟩ visit missed)

/-- With nothing left to walk the export is complete. -/
theorem whole_walk_recorded : ([growingVisit].map (·.entry.names)).Nodup ∧ ∀ info published,
    exportIndexSnapshot none (brokenOff [growingVisit] 1) stateDisk (lit "/s") (lit "/o") [] 0 =
        .ok (info, published) →
      RecordsAll [growingVisit] (lit "/s") published (lit "/o") := by
  refine ⟨by decide, ?_⟩
  apply (recordsAll_iff none [growingVisit] (by decide) 1 stateDisk (lit "/s") (lit "/o") [] 0).mpr
  intro _ _ visit missed
  cases missed

def emptyExport : Except Stopped (IndexSnapshotInfo × Disk) :=
  exportIndexSnapshot none (brokenOff [growingVisit] 0) stateDisk (lit "/s") (lit "/o") [] 0

/-- A directory that cannot be opened yields a published snapshot without any file. -/
theorem unopened_directory_published_empty : ¬ ∀ info published,
    exportIndexSnapshot none (brokenOff [growingVisit] 0) stateDisk (lit "/s") (lit "/o") [] 0 =
        .ok (info, published) →
      RecordsAll [growingVisit] (lit "/s") published (lit "/o") := by
  intro complete
  have run : emptyExport = .ok (⟨1, 0, 0, 0, []⟩, finalDisk emptyExport) := by decide +kernel
  obtain ⟨c, fits, read, recorded⟩ := complete _ _ run
  have bytes : openRead (finalDisk emptyExport) (lit "/o") = some (Container.mk 0 [] []).encode := by
    decide +kernel
  rw [bytes] at read
  have empty : (Container.mk 0 [] []).Fits := ⟨by decide, by simp, by decide, by simp, by simp⟩
  have same := Container.encode_inj empty fits (Option.some.inj read)
  obtain ⟨e, member, -⟩ := recorded growingVisit (by simp) (by decide +kernel)
  rw [← same] at member
  cases member

end BrokenWalks
end Such.IndexSnapshot
