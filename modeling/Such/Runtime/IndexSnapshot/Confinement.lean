import Such.Base.FileSystem.Trail
import Such.Runtime.IndexSnapshot.Import

/-! Where an import writes before it turns to the state directory. The places are listed as
the calls reach them; what a refused call may have made already is in the list too. -/
namespace Such.IndexSnapshot
open ByteText Wire FileSystem

section Places

/-- One entry: the directories above its file, and the file. -/
def entryTouches (temp : Bytes) (disk : Disk) (v : Bytes) : List Loc :=
  match readEntryHeader v with
  | none => []
  | some (rel, _, _, _) =>
    if !validRelativePath rel then []
    else
      let output := append temp rel
      createTouches (parentPath output) disk ++
        ((createDirectories (parentPath output) disk).bind (openWrite · output)).toList

def entriesTouches (fault : Option ImportFault) (temp : Bytes) :
    Nat → Nat → Nat → Disk → Bytes → List Loc
  | 0, _, _, _, _ => []
  | n + 1, index, total, disk, v =>
    entryTouches temp disk v ++
      match stageEntry fault temp index total disk v with
      | .error _ => []
      | .ok (total, disk, v) => entriesTouches fault temp n (index + 1) total disk v

/-- What an import reads before it writes anything. -/
def openContainer (fault : Option ImportFault) (disk : Disk) (snapshot : Bytes) :
    Except Stopped (IndexSnapshotInfo × Bytes) := do
  let v ← require (if fault = some .openSnapshot then none else openRead disk snapshot)
    (couldNotOpen snapshot, disk)
  let (parsed, v) ← (readHeader v).mapError (·, disk)
  parsed.roots.forM fun root =>
    refuse (!isDirectory disk root) (missingRoot root, disk)
  return (parsed, v)

/-- An import up to the activation. -/
def stageSnapshot (fault : Option ImportFault) (disk : Disk) (snapshot temp : Bytes) :
    Except Stopped (IndexSnapshotInfo × Disk) := do
  let (parsed, v) ← openContainer fault disk snapshot
  let disk := removeAllAt temp disk
  let disk ← require (if fault = some .createStaging then none else createDirectories temp disk)
    (.coded (lit "could not create snapshot import staging directory: "), disk)
  let (total, disk, v) ← stageEntries fault temp parsed.fileCount 0 0 disk v
  refuse (!v.isEmpty) (kTrailingBytes, removeAllAt temp disk)
  return ({ parsed with payloadBytes := total }, disk)

def importTouches (fault : Option ImportFault) (disk : Disk) (snapshot temp : Bytes) : List Loc :=
  match openContainer fault disk snapshot with
  | .error _ => []
  | .ok (parsed, v) =>
    createTouches temp (removeAllAt temp disk) ++
      match createDirectories temp (removeAllAt temp disk) with
      | none => []
      | some made => entriesTouches fault temp parsed.fileCount 0 0 made v

theorem importIndexSnapshot_eq (fault : Option ImportFault) (now : Nat × Nat) (disk : Disk)
    (snapshot stateDirectory : Bytes) :
    importIndexSnapshot fault now disk snapshot stateDirectory = do
      let temp := uniqueSibling stateDirectory (lit ".snapshot-import-") now.1
      let backup := uniqueSibling stateDirectory (lit ".snapshot-backup-") now.2
      let (info, disk) ← stageSnapshot fault disk snapshot temp
      let disk ← activate fault temp backup stateDirectory disk
      return (info, disk) := by
  simp only [importIndexSnapshot, stageSnapshot, openContainer, bind_assoc, pure_bind]

end Places

section Entries

variable {fault : Option ImportFault} {temp : Bytes} {disk disk' made : Disk} {q : Loc}
  {index total total' : Nat} {v rest : Bytes}

theorem entryTouches_eq {rel : Bytes} {size : Nat} {crc : UInt32}
    (header : readEntryHeader v = some (rel, size, crc, rest)) (valid : validRelativePath rel = true) :
    entryTouches temp disk v = createTouches (parentPath (append temp rel)) disk ++
      ((createDirectories (parentPath (append temp rel)) disk).bind
        (openWrite · (append temp rel))).toList := by
  simp [entryTouches, header, valid]

/-- An entry's places are strictly below the staging directory, and nothing there is a
directory yet. -/
theorem mem_entryTouches (filled : temp ≠ [])
    (walkable : Walkable disk [] (components (cstr temp))) (touched : q ∈ entryTouches temp disk v) :
    StrictlyBelow (locate temp) q ∧ get disk q ≠ some .dir := by
  cases header : readEntryHeader v with
  | none => simp [entryTouches, header] at touched
  | some entry =>
    obtain ⟨rel, size, crc, rest⟩ := entry
    cases valid : validRelativePath rel with
    | false => simp [entryTouches, header, valid] at touched
    | true =>
      obtain ⟨-, relative, dots⟩ := validRelativePath_eq_true.mp valid
      rw [entryTouches_eq header valid] at touched
      rcases List.mem_append.mp touched with added | opened
      · have absent := (mem_createTouches added).2
        refine ⟨?_, by simp [absent]⟩
        obtain ⟨ws, tail, short, parts⟩ := components_parent_below filled relative dots
        simp only [createTouches] at added
        split at added
        · cases added
        · rw [parts, makeTouches_append walkable] at added
          exact makeTouches_below short added
      · obtain ⟨made, done, opened⟩ := Option.bind_eq_some_iff.mp (Option.mem_toList.mp opened)
        have kept : ∀ p, get disk p = some .dir → get made p = some .dir := by
          intro p dir
          rw [get_createDirectories done, dir, ite_self]
        refine ⟨openWrite_strictlyBelow filled relative dots (kept _ walkable.locate) opened, ?_⟩
        obtain ⟨_, -, -, -, -, free⟩ := openWrite_eq_some.mp opened
        exact fun dir => free (kept q dir)

/-- The tree an entry leaves, staged or refused. -/
def leftByEntry : Except Stopped (Nat × Disk × Bytes) → Disk
  | .ok (_, disk, _) => disk
  | .error (_, disk) => disk

theorem gainsOnly_removeAllAt {touches : List Loc} (gains : GainsOnly touches disk made)
    (temp : Bytes) : GainsOnly touches disk (removeAllAt temp made) := by
  simp only [removeAllAt]
  split
  · exact gains
  · exact gains.removeAll _

theorem entryTouches_made {rel : Bytes} {size : Nat} {crc : UInt32}
    (header : readEntryHeader v = some (rel, size, crc, rest)) (valid : validRelativePath rel = true)
    (done : createDirectories (parentPath (append temp rel)) disk = some made) :
    GainsOnly (entryTouches temp disk v) disk made := by
  rw [entryTouches_eq header valid]
  exact (gainsOnly_createDirectories done).mono (List.subset_append_left _ _)

theorem entryTouches_opened {rel : Bytes} {size : Nat} {crc : UInt32} {l : Loc}
    (header : readEntryHeader v = some (rel, size, crc, rest)) (valid : validRelativePath rel = true)
    (done : createDirectories (parentPath (append temp rel)) disk = some made)
    (opened : openWrite made (append temp rel) = some l) : l ∈ entryTouches temp disk v ∧ l ≠ [] := by
  obtain ⟨name, -, place, -⟩ := openWrite_eq_some.mp opened
  refine ⟨?_, by simp [place]⟩
  rw [entryTouches_eq header valid, done]
  exact List.mem_append_right _ (by simp [opened])

theorem EntryTree.gainsOnly (reached : EntryTree temp disk v disk') :
    GainsOnly (entryTouches temp disk v) disk disk' := by
  induction reached with
  | found => exact .refl _ disk
  | prepared header valid done => exact entryTouches_made header valid done
  | written header valid done opened before content ih =>
    obtain ⟨member, below⟩ := entryTouches_opened header valid done opened
    exact ih.put member below _

/-- Directories stay directories, as an entry's places are none. -/
theorem EntryTree.keeps_directory (filled : temp ≠ [])
    (walkable : Walkable disk [] (components (cstr temp))) (reached : EntryTree temp disk v disk')
    (dir : get disk q = some .dir) : get disk' q = some .dir := by
  induction reached with
  | found => exact dir
  | prepared header valid done => rw [get_createDirectories done, dir, ite_self]
  | written header valid done opened before content ih =>
    obtain ⟨member, below⟩ := entryTouches_opened header valid done opened
    rw [get_put _ below, if_neg]
    · exact ih
    · rintro rfl
      exact (mem_entryTouches filled walkable member).2 dir

/-- Staging an entry adds nothing anywhere else. -/
theorem stageEntry_gainsOnly (fault : Option ImportFault) (temp : Bytes) (index total : Nat)
    (disk : Disk) (v : Bytes) : GainsOnly (entryTouches temp disk v) disk
      (leftByEntry (stageEntry fault temp index total disk v)) := by
  cases result : stageEntry fault temp index total disk v with
  | ok staged => exact (EntryTree.of_ok result).gainsOnly
  | error stopped =>
    obtain ⟨tree, reached, same⟩ := EntryTree.of_error result
    rw [leftByEntry, same]
    exact gainsOnly_removeAllAt reached.gainsOnly temp

/-- The way to the staging directory stays open while entries are staged. -/
theorem stageEntry_walkable (filled : temp ≠ [])
    (walkable : Walkable disk [] (components (cstr temp)))
    (done : stageEntry fault temp index total disk v = .ok (total', disk', rest)) :
    Walkable disk' [] (components (cstr temp)) := by
  intro lead above
  exact (EntryTree.of_ok done).keeps_directory filled walkable (walkable lead above)

end Entries

section Runs

variable {fault : Option ImportFault} {temp : Bytes} {disk : Disk} {q : Loc} {n index total : Nat}
  {v : Bytes}

/-- Whatever stops the loop, and wherever, its places are strictly below the staging
directory. -/
theorem mem_entriesTouches (filled : temp ≠ [])
    (walkable : Walkable disk [] (components (cstr temp)))
    (touched : q ∈ entriesTouches fault temp n index total disk v) :
    StrictlyBelow (locate temp) q := by
  induction n generalizing index total disk v with
  | zero => cases touched
  | succ n ih =>
    rw [entriesTouches] at touched
    rcases List.mem_append.mp touched with first | later
    · exact (mem_entryTouches filled walkable first).1
    · cases staged : stageEntry fault temp index total disk v with
      | error stopped =>
        rw [staged] at later
        cases later
      | ok next =>
        rw [staged] at later
        exact ih (stageEntry_walkable filled walkable staged) later

theorem stageEntries_gainsOnly (fault : Option ImportFault) (temp : Bytes) (n index total : Nat)
    (disk : Disk) (v : Bytes) : GainsOnly (entriesTouches fault temp n index total disk v) disk
      (leftByEntry (stageEntries fault temp n index total disk v)) := by
  induction n generalizing index total disk v with
  | zero => exact .refl _ disk
  | succ n ih =>
    have first := stageEntry_gainsOnly fault temp index total disk v
    rw [entriesTouches, stageEntries]
    cases staged : stageEntry fault temp index total disk v with
    | error stopped =>
      rw [staged] at first
      exact first.mono (List.subset_append_left _ _)
    | ok next =>
      rw [staged] at first
      exact first.trans (ih _ _ _ _)

theorem openContainer_error {snapshot : Bytes} {failure : Failure} {disk' : Disk}
    (stopped : openContainer fault disk snapshot = .error (failure, disk')) : disk' = disk := by
  simp only [openContainer, bind_eq_error, require_eq_error, mapError_eq_error, Prod.mk.injEq,
    Prod.exists, pure, Except.pure, reduceCtorEq, and_false, exists_false, or_false] at stopped
  rcases stopped with ⟨-, -, same⟩ | ⟨_, -, ⟨_, -, -, same⟩ | ⟨_, _, -, missing⟩⟩
  · exact same
  · exact same.symm
  · obtain ⟨root, -, -, same⟩ := forM_refuse_eq_error missing
    exact (Prod.mk.inj same).2

/-- Up to the activation an import adds nothing outside its places. -/
theorem stageSnapshot_gainsOnly (fault : Option ImportFault) (disk : Disk) (snapshot temp : Bytes) :
    GainsOnly (importTouches fault disk snapshot temp) disk
      (finalDisk (stageSnapshot fault disk snapshot temp)) := by
  cases opened : openContainer fault disk snapshot with
  | error stopped =>
    obtain ⟨failure, disk'⟩ := stopped
    rw [stageSnapshot, opened]
    change GainsOnly _ disk disk'
    rw [openContainer_error opened]
    exact .refl _ disk
  | ok header =>
    obtain ⟨parsed, v⟩ := header
    have cleared : GainsOnly [] disk (removeAllAt temp disk) :=
      gainsOnly_removeAllAt (.refl [] disk) temp
    simp only [importTouches, opened]
    cases result : stageSnapshot fault disk snapshot temp with
    | error stopped =>
      obtain ⟨failure, disk'⟩ := stopped
      simp only [stageSnapshot, opened, bind_eq_error, require_eq_error, refuse_eq_error,
        require_eq_ok, Prod.exists, Prod.mk.injEq, Except.ok.injEq, reduceCtorEq, false_or,
        Option.ite_none_left_eq_some, pure, Except.pure, and_false, exists_false, or_false] at result
      obtain ⟨_, _, ⟨rfl, rfl⟩, result⟩ := result
      rcases result with ⟨-, -, rfl⟩ | ⟨made, ⟨-, done⟩, result⟩
      · exact cleared.mono (List.nil_subset _)
      have loop := stageEntries_gainsOnly fault temp parsed.fileCount 0 0 made v
      have whole := (cleared.trans (gainsOnly_createDirectories done)).trans loop
      simp only [done, List.nil_append] at whole ⊢
      rcases result with stopped | ⟨total, staged, rest, staged_, -, -, rfl⟩
      · rwa [stopped] at whole
      · rw [staged_] at whole
        exact gainsOnly_removeAllAt whole temp
    | ok left =>
      obtain ⟨info, disk'⟩ := left
      simp only [stageSnapshot, opened, bind_eq_ok, require_eq_ok, refuse_eq_ok, Prod.exists,
        Prod.mk.injEq, Except.ok.injEq, Option.ite_none_left_eq_some, pure, Except.pure] at result
      obtain ⟨_, _, ⟨rfl, rfl⟩, made, ⟨-, done⟩, total, staged, rest, staged_, _, -, -, rfl⟩ := result
      have loop := stageEntries_gainsOnly fault temp parsed.fileCount 0 0 made v
      have whole := (cleared.trans (gainsOnly_createDirectories done)).trans loop
      simp only [done, List.nil_append] at whole ⊢
      rwa [staged_] at whole

theorem uniqueSibling_ne_nil (stateDirectory : Bytes) {suffix : Bytes} (more : suffix ≠ [])
    (stamp : Nat) : uniqueSibling stateDirectory suffix stamp ≠ [] := by
  rw [uniqueSibling]
  simp only [append]
  split
  · simp [more]
  · split
    · intro empty
      simp [more] at empty
    · simp

theorem removed_below (absent : get (removeAllAt temp disk) q = none) (present : get disk q ≠ none) :
    locate temp <+: q := by
  simp only [removeAllAt] at absent
  split at absent
  · exact absurd absent present
  · by_cases root : locate temp = []
    · rw [root]
      exact List.nil_prefix
    · rw [get_removeAll root] at absent
      by_contra outside
      rw [if_neg outside] at absent
      exact present absent

/-- A place an import may write to before the activation: the staging directory, a missing
directory on the way to it, or anything strictly inside. -/
def Confined (disk : Disk) (temp : Bytes) (q : Loc) : Prop :=
  q = locate temp ∨ (Leads temp q ∧ get disk q = none) ∨ StrictlyBelow (locate temp) q

theorem mem_importTouches {snapshot : Bytes} (filled : temp ≠ [])
    (touched : q ∈ importTouches fault disk snapshot temp) : Confined disk temp q := by
  simp only [importTouches] at touched
  split at touched
  · cases touched
  · rcases List.mem_append.mp touched with making | staging
    · obtain ⟨leads, absent⟩ := mem_createTouches making
      by_cases missing : get disk q = none
      · exact .inr (.inl ⟨leads, missing⟩)
      · -- it was part of an old staging directory, which is removed first
        have below := removed_below absent missing
        by_cases top : q = locate temp
        · exact .inl top
        · exact .inr (.inr ⟨below, top⟩)
    · split at staging
      · cases staging
      · rename_i made done
        exact .inr (.inr (mem_entriesTouches filled (walkable_of_createDirectories done) staging))

/-- On a way without `..` the places above are ancestors in the tree. -/
theorem Confined.comparable (confined : Confined disk temp q)
    (down : ∀ c ∈ components (cstr temp), c ≠ [46, 46]) : q <+: locate temp ∨ locate temp <+: q := by
  rcases confined with rfl | ⟨leads, -⟩ | below
  · exact .inl (List.prefix_refl _)
  · exact .inl (leads.above down)
  · exact .inr below.1

/-- An import stages and then activates. For every container and every fault, all that it creates
or truncates before the activation is confined to its staging directory; so is whatever the tree
it hands on, or leaves behind when it refuses, has more than the one it started from. -/
theorem import_confined (fault : Option ImportFault) (now : Nat × Nat) (disk : Disk)
    (snapshot stateDirectory : Bytes) :
    let temp := uniqueSibling stateDirectory (lit ".snapshot-import-") now.1
    let backup := uniqueSibling stateDirectory (lit ".snapshot-backup-") now.2
    importIndexSnapshot fault now disk snapshot stateDirectory = (do
        let (info, staged) ← stageSnapshot fault disk snapshot temp
        let active ← activate fault temp backup stateDirectory staged
        return (info, active)) ∧
      (∀ q ∈ importTouches fault disk snapshot temp, Confined disk temp q ∧
        ((∀ c ∈ components (cstr temp), c ≠ [46, 46]) → q <+: locate temp ∨ locate temp <+: q)) ∧
      GainsOnly (importTouches fault disk snapshot temp) disk
        (finalDisk (stageSnapshot fault disk snapshot temp)) := by
  intro temp backup
  have filled : temp ≠ [] := uniqueSibling_ne_nil stateDirectory (by decide) now.1
  refine ⟨importIndexSnapshot_eq fault now disk snapshot stateDirectory, ?_,
    stageSnapshot_gainsOnly fault disk snapshot temp⟩
  intro q touched
  have confined := mem_importTouches filled touched
  exact ⟨confined, confined.comparable⟩

end Runs

/-- A `..` cut off by a NUL passes the check and still leads nowhere. -/
example : (importTouches none
    [([⟨lit "o", by decide⟩], .file (Container.encode ⟨7, [], [⟨lit "a/b", crc32Update 0 [], []⟩,
      ⟨lit ".." ++ 0 :: lit "/c", crc32Update 0 [], []⟩]⟩))] (lit "/o") (lit "/x/t")).map
        (·.map Name.bytes) =
    [[lit "x"], [lit "x", lit "t"], [lit "x", lit "t", lit "a"],
      [lit "x", lit "t", lit "a", lit "b"]] := by decide +kernel

end Such.IndexSnapshot
