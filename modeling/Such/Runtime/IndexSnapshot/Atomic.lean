import Such.Runtime.IndexSnapshot.Import

/-! Whether an import replaces the state directory as a whole or not at all, whichever step
of the system fails. -/
namespace Such.IndexSnapshot
open ByteText Wire FileSystem

section Losses
variable {fault : Option ImportFault}

/-- The file an entry stands for. -/
def Record.file (e : Record) : Loc × Bytes := (locate e.path, e.payload)

theorem stagedFiles_append (index : Nat) (first second : List Record) :
    stagedFiles fault index (first ++ second) =
      stagedFiles fault index first ++ stagedFiles fault (index + first.length) second := by
  induction first generalizing index with
  | nil => rfl
  | cons e first ih =>
    rw [List.cons_append, stagedFiles, ih, stagedFiles, List.cons_append, List.length_cons,
      Nat.add_right_comm, Nat.add_assoc]

/-- Entries that no failing close belongs to are staged with all their bytes. -/
theorem stagedFiles_whole {index : Nat} {entries : List Record}
    (other : ∀ k reached, fault = some (.close k reached) → k < index ∨ index + entries.length ≤ k) :
    stagedFiles fault index entries = entries.map Record.file := by
  induction entries generalizing index with
  | nil => rfl
  | cons e entries ih =>
    have rest : stagedFiles fault (index + 1) entries = entries.map Record.file := ih fun k reached same => by
      have := other k reached same
      simp only [List.length_cons] at this
      omega
    have here : ImportFault.flushed index e.payload fault = e.payload := by
      simp only [ImportFault.flushed]
      split
      · rename_i k reached
        have := other k reached rfl
        simp only [List.length_cons] at this
        exact if_neg (by omega)
      · rfl
    rw [stagedFiles, rest, here]
    rfl

theorem stagedFiles_close {before after : List Record} {e : Record} {reached : Nat} :
    stagedFiles (some (.close before.length reached)) 0 (before ++ e :: after) =
      before.map Record.file ++ (locate e.path, e.payload.take reached) ::
        after.map Record.file := by
  have first : stagedFiles (some (.close before.length reached)) 0 before =
      before.map Record.file := stagedFiles_whole (by simp)
  have last : stagedFiles (some (.close before.length reached)) (before.length + 1) after =
      after.map Record.file := stagedFiles_whole (by simp)
  rw [stagedFiles_append, first, Nat.zero_add, stagedFiles, last]
  simp [ImportFault.flushed]

theorem lookup_reverse_split (before after : List (Loc × Bytes)) (p r : Loc) (x : Bytes) :
    (before ++ (p, x) :: after).reverse.lookup r =
      (after.reverse.lookup r).or (if r = p then some x else before.reverse.lookup r) := by
  rw [List.reverse_append, List.reverse_cons, List.append_assoc, List.lookup_append]
  congr 1
  by_cases here : r = p
  · simp [here]
  · have differ : (r == p) = false := by simpa using here
    simp [List.lookup_cons, differ, here]

/-- The bytes kept by a failing close matter unless a later file takes the same place. -/
theorem lookup_same_iff {before after : List (Loc × Bytes)} {p : Loc} {x y : Bytes} :
    (∀ r, (before ++ (p, x) :: after).reverse.lookup r =
        (before ++ (p, y) :: after).reverse.lookup r) ↔ x = y ∨ ∃ e ∈ after, e.1 = p := by
  simp only [lookup_reverse_split]
  constructor
  · intro same
    cases found : after.reverse.lookup p with
    | some c => exact .inr (lookup_reverse_isSome.mp ⟨c, found⟩)
    | none =>
      have := same p
      rw [found] at this
      exact .inl (by simpa using this)
  · rintro (rfl | later) r
    · rfl
    · obtain ⟨c, found⟩ := lookup_reverse_isSome.mpr later
      by_cases here : r = p
      · simp [here, found]
      · simp [here]

end Losses

section AllOrNothing
variable {fault : Option ImportFault} {now : Nat × Nat} {disk : Disk}
  {snapshot stateDirectory : Bytes}

/-- A directory holds the files of a container's payload and no others; of two entries for one
place the later one counts. -/
def HoldsPayload (disk : Disk) (l : Loc) (c : Container) : Prop :=
  get disk l = some .dir ∧ ∀ r content, get disk (l ++ r) = some (.file content) ↔
    (c.entries.map Record.file).reverse.lookup r = some content

/-- After a refusal the state directory is as before; after a success it holds the payload of
the snapshot. -/
def ImportsAtomically (fault : Option ImportFault) (now : Nat × Nat) (disk : Disk)
    (snapshot stateDirectory : Bytes) : Prop :=
  match importIndexSnapshot fault now disk snapshot stateDirectory with
  | .error (_, disk') =>
    ∀ r, get disk' (locate stateDirectory ++ r) = get disk (locate stateDirectory ++ r)
  | .ok (_, disk') => ∃ c : Container, c.Fits ∧ openRead disk snapshot = some c.encode ∧
      HoldsPayload disk' (locate stateDirectory) c

/-- The entry whose close fails loses bytes that no later entry for the same place makes up
for. -/
def LosesBytes (entries : List Record) (entry reached : Nat) : Prop :=
  ∃ before e after, entries = before ++ e :: after ∧ before.length = entry ∧
    reached < e.payload.length ∧ ∀ later ∈ after, locate later.path ≠ locate e.path

theorem stagedFiles_same_iff {entries : List Record} :
    (∀ r, (stagedFiles fault 0 entries).reverse.lookup r =
        (entries.map Record.file).reverse.lookup r) ↔
      ∀ entry reached, fault = some (.close entry reached) → ¬ LosesBytes entries entry reached := by
  constructor
  · rintro same entry reached rfl ⟨before, e, after, rfl, rfl, lost, alone⟩
    rw [stagedFiles_close, List.map_append, List.map_cons] at same
    rcases lookup_same_iff.mp same with kept | ⟨file, member, place⟩
    · have := congrArg List.length kept
      rw [List.length_take] at this
      change _ = e.payload.length at this
      omega
    · obtain ⟨later, found, rfl⟩ := List.mem_map.mp member
      exact alone later found place
  · intro whole
    by_cases inside : ∃ entry reached, fault = some (.close entry reached) ∧ entry < entries.length
    · obtain ⟨entry, reached, rfl, within⟩ := inside
      have split : entries = entries.take entry ++ entries[entry] :: entries.drop (entry + 1) := by
        rw [List.getElem_cons_drop, List.take_append_drop]
      generalize entries[entry] = e at split
      have size : (entries.take entry).length = entry := List.length_take_of_le within.le
      generalize entries.take entry = before at split size
      generalize entries.drop (entry + 1) = after at split
      subst split size
      rw [stagedFiles_close, List.map_append, List.map_cons]
      refine lookup_same_iff.mpr ?_
      by_contra lossy
      rw [not_or] at lossy
      refine whole _ _ rfl ⟨before, e, after, rfl, rfl, ?_, fun later member place => ?_⟩
      · by_contra enough
        exact lossy.1 (List.take_of_length_le (Nat.not_lt.mp enough))
      · exact lossy.2 ⟨later.file, List.mem_map_of_mem member, place⟩
    · intro r
      rw [stagedFiles_whole fun k reached same => ?_]
      rw [Nat.zero_add]
      exact .inr (Nat.not_lt.mp fun within => inside ⟨k, reached, same, within⟩)

/-- For a plain state directory the import is all or nothing exactly when no close that fails
loses bytes of a container that is otherwise imported. -/
theorem importsAtomically_iff (fault : Option ImportFault) (now : Nat × Nat) (disk : Disk)
    (snapshot stateDirectory : Bytes) (clear : 0 ∉ stateDirectory)
    (named : filename stateDirectory ≠ [])
    (dots : ∀ c ∈ components stateDirectory, c ≠ [46] ∧ c ≠ [46, 46]) :
    ImportsAtomically fault now disk snapshot stateDirectory ↔
      ∀ entry reached c, fault = some (.close entry reached) →
        Importable disk snapshot (locate stateDirectory).dropLast c →
        ¬ LosesBytes c.entries entry reached := by
  obtain ⟨d, s, plain⟩ := exists_plain clear named dots
  rw [ImportsAtomically, plain.locate, List.dropLast_concat]
  have holds : ∀ {info disk'}, importIndexSnapshot fault now disk snapshot stateDirectory =
      .ok (info, disk') → ∃ c, Importable disk snapshot d c ∧ (HoldsPayload disk' (d ++ [s]) c ↔
        ∀ entry reached, fault = some (.close entry reached) →
          ¬ LosesBytes c.entries entry reached) := by
    intro info disk' done
    obtain ⟨c, able, -, tree⟩ := import_sound plain done
    refine ⟨c, able, ?_⟩
    have named : ∀ file ∈ stagedFiles fault 0 c.entries, file.1 ≠ [] := by
      intro file member
      have place : file.1 ∈ places c.entries := by
        rw [← map_fst_stagedFiles fault 0]
        exact List.mem_map_of_mem member
      obtain ⟨e, found, same⟩ := List.mem_map.mp place
      rw [← same]
      exact locate_ne_nil (able.readable.sound e found).2.1 (able.names e found)
    rw [← stagedFiles_same_iff, HoldsPayload]
    have top := tree []
    rw [List.append_nil, stagedNode_nil_place named] at top
    simp only [top, true_and, tree, stagedNode_eq_file]
    exact forall_congr' fun r => ⟨fun same => Option.ext same, fun same content => by rw [same]⟩
  constructor
  · intro atomic entry reached c closing able
    obtain ⟨disk', done⟩ : ∃ disk', importIndexSnapshot fault now disk snapshot stateDirectory =
        .ok (c.info, disk') := import_complete plain able (.inr ⟨entry, reached, closing⟩)
    rw [done] at atomic
    obtain ⟨c', fits, read, payload⟩ := atomic
    obtain ⟨c'', able'', iff⟩ := holds done
    have first := Container.encode_inj fits able.readable.toFits
      (Option.some.inj (read.symm.trans able.bytes))
    have second := Container.encode_inj able''.readable.toFits able.readable.toFits
      (Option.some.inj (able''.bytes.symm.trans able.bytes))
    subst first second
    exact iff.mp payload entry reached closing
  · intro whole
    cases done : importIndexSnapshot fault now disk snapshot stateDirectory with
    | error stopped =>
      obtain ⟨failure, disk'⟩ := stopped
      exact import_error plain done
    | ok outcome =>
      obtain ⟨info, disk'⟩ := outcome
      obtain ⟨c, able, iff⟩ := holds done
      exact ⟨c, able.readable.toFits, able.bytes,
        iff.mpr fun entry reached closing => whole entry reached c closing able⟩

/-- A snapshot `/o` of one file `a`, and the state directory `/s` it is imported to. -/
def savedContainer : Container := ⟨7, [], [⟨lit "a", crc32Update 0 (lit "ab"), lit "ab"⟩]⟩
def savedName : Name := ⟨lit "a", by decide⟩
def savedDisk : Disk :=
  [([⟨lit "o", by decide⟩], .file savedContainer.encode), ([⟨lit "s", by decide⟩], .dir)]

theorem saved_import_atomic :
    ImportsAtomically (some (.close 0 2)) (1, 2) savedDisk (lit "/o") (lit "/s") := by
  refine (importsAtomically_iff _ _ _ _ _ (by decide) (by decide) (by decide)).mpr ?_
  rintro entry reached c closing able ⟨before, e, after, shape, size, lost, -⟩
  have bytes : openRead savedDisk (lit "/o") = some savedContainer.encode := by decide +kernel
  have fits : savedContainer.Fits := ⟨by decide, by decide, by decide, by decide, by decide⟩
  have same := Container.encode_inj fits able.readable.toFits
    (Option.some.inj (bytes.symm.trans able.bytes))
  subst same
  obtain ⟨rfl, rfl⟩ : 0 = entry ∧ 2 = reached := by simpa using closing
  obtain rfl : before = [] := List.length_eq_zero_iff.mp size
  obtain ⟨rfl, -⟩ := List.cons.inj shape
  exact absurd lost (by decide)

def lossyImport : Except Stopped (IndexSnapshotInfo × Disk) :=
  importIndexSnapshot (some (.close 0 1)) (1, 2) savedDisk (lit "/o") (lit "/s")

/-- A flush that fails at the close of a staged file after one of its two bytes: the import
succeeds and activates the cut file. -/
theorem lost_flush_activated :
    ¬ ImportsAtomically (some (.close 0 1)) (1, 2) savedDisk (lit "/o") (lit "/s") := by
  have run : importIndexSnapshot (some (.close 0 1)) (1, 2) savedDisk (lit "/o") (lit "/s") =
      .ok (savedContainer.info, finalDisk lossyImport) := by decide +kernel
  rw [ImportsAtomically, run]
  rintro ⟨c, fits, read, -, files⟩
  have bytes : openRead savedDisk (lit "/o") = some savedContainer.encode := by decide +kernel
  have fits' : savedContainer.Fits := ⟨by decide, by decide, by decide, by decide, by decide⟩
  have same := Container.encode_inj fits' fits (Option.some.inj (bytes.symm.trans read))
  subst same
  have cut : get (finalDisk lossyImport) (locate (lit "/s") ++ [savedName]) =
      some (.file (lit "a")) := by decide +kernel
  exact absurd ((files [savedName] (lit "a")).mp cut) (by decide +kernel)

end AllOrNothing
end Such.IndexSnapshot
