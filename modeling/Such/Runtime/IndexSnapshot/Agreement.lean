import Such.Runtime.IndexSnapshot.StateDirectory

/-! Inspection and import as two readers of one format: which byte strings both accept, and
which only the inspection does. -/
namespace Such.IndexSnapshot
open ByteText Wire FileSystem LexicalPath

/-- Every root that can be read off the bytes is a directory. -/
def RootsPresent (disk : Disk) (v : Bytes) : Prop :=
  ∀ parsed rest, readHeader v = .ok (parsed, rest) → ∀ root ∈ parsed.roots, isDirectory disk root = true

/-- The import accepts what the inspection accepts, with the same metadata. -/
def Agree (now : Nat × Nat) (disk : Disk) (snapshot stateDirectory : Bytes) : Prop :=
  ∀ info, (∃ imported, importIndexSnapshot none now disk snapshot stateDirectory =
      .ok (info, imported)) ↔ inspectIndexSnapshot disk snapshot = .ok info

/-- Every entry has a file name the system finds, and none lies below another one. -/
def Placeable (c : Container) : Prop :=
  (∀ e ∈ c.entries, NamesFile e.path) ∧ Compatible (places c.entries)

instance (c : Container) : Decidable (Placeable c) := inferInstanceAs (Decidable (_ ∧ _))

section Readers
variable {now : Nat × Nat} {disk : Disk} {snapshot stateDirectory v : Bytes} {d : Loc} {s : Name}

theorem inspectIndexSnapshot_eq_ok {info : IndexSnapshotInfo} (read : openRead disk snapshot = some v) :
    inspectIndexSnapshot disk snapshot = .ok info ↔
      ∃ c : Container, v = c.encode ∧ c.Readable ∧ info = c.info := by
  simp only [inspectIndexSnapshot, read, require, ← inspectBytes_eq_ok]
  rfl

/-- A readable container states the roots the import looks for. -/
theorem RootsPresent.roots {c : Container} (present : RootsPresent disk c.encode)
    (readable : c.Readable) : ∀ root ∈ c.roots, isDirectory disk root = true := by
  have header : readHeader c.encode = .ok ({ c.info with payloadBytes := 0 }, encodeRecords c.entries) :=
    readHeader_eq_ok.mpr ⟨rfl, readable.roots, readable.few, rfl, rfl⟩
  exact present _ _ header

/-- The import into a named directory accepts the readable containers it can stage. -/
theorem import_plain_eq_ok (plain : Plain stateDirectory (d ++ [s])) (read : openRead disk snapshot = some v)
    (present : RootsPresent disk v) (way : NoFileOnWay [] d disk) {info : IndexSnapshotInfo} :
    (∃ imported, importIndexSnapshot none now disk snapshot stateDirectory = .ok (info, imported)) ↔
      ∃ c : Container, v = c.encode ∧ c.Readable ∧ Placeable c ∧ info = c.info := by
  constructor
  · rintro ⟨imported, done⟩
    obtain ⟨c, able, same, -⟩ := import_sound plain done
    exact ⟨c, Option.some.inj (read.symm.trans able.bytes), able.readable, ⟨able.names, able.apart⟩, same⟩
  · rintro ⟨c, rfl, readable, placeable, rfl⟩
    have able : Importable disk snapshot d c :=
      ⟨read, readable, present.roots readable, placeable.1, placeable.2, way⟩
    exact import_complete plain able (.inl rfl)

/-- Inspection and import agree exactly where the bytes hold no readable container that cannot
be staged: one with an entry that names no file, or lies below another entry, or any
container when the state directory does not end in a name. -/
theorem agree_iff (env : Environment) (now : Nat × Nat) (disk : Disk)
    (snapshot stateDirectory v : Bytes) (resolved : indexStateDirectory env = .ok stateDirectory)
    (proper : locate stateDirectory ≠ []) (read : openRead disk snapshot = some v)
    (present : RootsPresent disk v) (way : NoFileOnWay [] (locate stateDirectory).dropLast disk) :
    Agree now disk snapshot stateDirectory ↔
      ∀ c : Container, v = c.encode → c.Readable → env.EndsInName ∧ Placeable c := by
  obtain ⟨d, s, slash, rfl, ends⟩ := exists_stateDirectory resolved proper
  have plain := rootedText_plain d s
  rw [locate_rootedText, List.dropLast_concat] at way
  cases slash with
  | true =>
    have unnamed : ¬ env.EndsInName := fun named => Bool.noConfusion (ends.mpr named)
    have refused : ∀ info, ¬ ∃ imported, importIndexSnapshot none now disk snapshot
        (rootedText (d ++ [s]) true) = .ok (info, imported) := by
      rintro info ⟨imported, done⟩
      rw [rootedText_slash] at done
      exact import_slash plain done
    constructor
    · intro agree c shape readable
      have inspected := (inspectIndexSnapshot_eq_ok read).mpr ⟨c, shape, readable, rfl⟩
      exact absurd ((agree c.info).mpr inspected) (refused c.info)
    · intro none info
      refine iff_of_false (refused info) ?_
      intro inspected
      obtain ⟨c, shape, readable, -⟩ := (inspectIndexSnapshot_eq_ok read).mp inspected
      exact unnamed (none c shape readable).1
  | false =>
    have named := ends.mp rfl
    constructor
    · intro agree c shape readable
      have inspected := (inspectIndexSnapshot_eq_ok read).mpr ⟨c, shape, readable, rfl⟩
      obtain ⟨c', shape', readable', placeable, -⟩ :=
        (import_plain_eq_ok plain read present way).mp ((agree c.info).mpr inspected)
      have same := Container.encode_inj readable.toFits readable'.toFits (shape.symm.trans shape')
      exact ⟨named, same ▸ placeable⟩
    · intro placeable info
      rw [import_plain_eq_ok plain read present way, inspectIndexSnapshot_eq_ok read]
      apply exists_congr
      intro c
      constructor
      · rintro ⟨shape, readable, -, same⟩
        exact ⟨shape, readable, same⟩
      · rintro ⟨shape, readable, same⟩
        exact ⟨shape, readable, (placeable c shape readable).2, same⟩

end Readers

def emptyFiles (paths : List Bytes) : Container := ⟨7, [], paths.map fun path => ⟨path, crc32Update 0 [], []⟩⟩

/-- A snapshot `/o` of empty files, and the directory `/s`. -/
def emptyFilesDisk (paths : List Bytes) : Disk :=
  [([⟨lit "o", isName_o⟩], .file (emptyFiles paths).encode), ([stateName], .dir)]

theorem repeatedFile_roots :
    RootsPresent (emptyFilesDisk [lit "a", lit "a"]) (emptyFiles [lit "a", lit "a"]).encode := by
  intro parsed rest read root member
  have header : readHeader (emptyFiles [lit "a", lit "a"]).encode =
      .ok ({ (emptyFiles [lit "a", lit "a"]).info with payloadBytes := 0 },
        encodeRecords (emptyFiles [lit "a", lit "a"]).entries) := by decide +kernel
  cases header.symm.trans read
  cases member

/-- A path recorded twice is no ground for disagreement. -/
theorem repeatedFile_agree :
    Agree (1, 2) (emptyFilesDisk [lit "a", lit "a"]) (lit "/o") (lit "/s") := by
  apply (agree_iff (namedEnvironment (lit "/s") (by decide)) (1, 2)
    (emptyFilesDisk [lit "a", lit "a"]) (lit "/o") (lit "/s") _ (by decide +kernel) (by decide +kernel)
    (by decide +kernel : _ = some (emptyFiles [lit "a", lit "a"]).encode) repeatedFile_roots
    (top_way (by decide +kernel))).mpr
  intro c shape readable
  have fits : (emptyFiles [lit "a", lit "a"]).Fits := ⟨by decide, by decide, by decide, by decide, by decide⟩
  have same := Container.encode_inj fits readable.toFits shape
  subst same
  refine ⟨?_, by decide +kernel⟩
  intro explicit named _
  cases named
  decide +kernel

theorem not_agree {now : Nat × Nat} {disk : Disk} {snapshot stateDirectory : Bytes}
    {info : IndexSnapshotInfo} (inspected : inspectIndexSnapshot disk snapshot = .ok info)
    (refused : (importIndexSnapshot none now disk snapshot stateDirectory).toOption = none) :
    ¬ Agree now disk snapshot stateDirectory := by
  intro agree
  obtain ⟨imported, done⟩ := (agree info).mpr inspected
  rw [done] at refused
  cases refused

/-- The inspection accepts a file recorded below another one, and a path that ends in a slash;
the import refuses both. -/
theorem unplaceable_disagree :
    (inspectIndexSnapshot (emptyFilesDisk [lit "a", lit "a/b"]) (lit "/o") =
        .ok (emptyFiles [lit "a", lit "a/b"]).info ∧
      ¬ Agree (1, 2) (emptyFilesDisk [lit "a", lit "a/b"]) (lit "/o") (lit "/s")) ∧
    inspectIndexSnapshot (emptyFilesDisk [lit "a/"]) (lit "/o") = .ok (emptyFiles [lit "a/"]).info ∧
      ¬ Agree (1, 2) (emptyFilesDisk [lit "a/"]) (lit "/o") (lit "/s") := by
  have below : inspectIndexSnapshot (emptyFilesDisk [lit "a", lit "a/b"]) (lit "/o") =
      .ok (emptyFiles [lit "a", lit "a/b"]).info := by decide +kernel
  have slash : inspectIndexSnapshot (emptyFilesDisk [lit "a/"]) (lit "/o") =
      .ok (emptyFiles [lit "a/"]).info := by decide +kernel
  exact ⟨⟨below, not_agree below (by decide +kernel)⟩, slash, not_agree slash (by decide +kernel)⟩

end Such.IndexSnapshot
