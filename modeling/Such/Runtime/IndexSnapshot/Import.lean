import Such.Base.FileSystem.Places
import Such.Runtime.IndexSnapshot.Container

/-! What an import does to the state directory. The staging loop is followed by the list of
files put into the staging directory; everything outside that directory stays as it was
until the two renames at the end. -/
namespace Such.IndexSnapshot
open ByteText Wire FileSystem

section StagingEntries

theorem copyPayload_sound {failAt : Option Nat} {output : Bytes} {fuel round remaining : Nat}
    (enough : remaining ≤ fuel) {crc crc' : UInt32} {written written' v rest : Bytes}
    (done : copyPayload failAt output fuel round remaining crc written v =
      .ok (crc', written', rest)) :
    ∃ data, v = data ++ rest ∧ data.length = remaining ∧ crc' = crc32Update crc data ∧
      written' = written ++ data := by
  induction fuel generalizing round remaining crc written v with
  | zero =>
    obtain rfl : remaining = 0 := by omega
    cases done
    exact ⟨[], by simp⟩
  | succ fuel ih =>
    simp only [copyPayload] at done
    split at done
    · rename_i finished
      subst finished
      cases done
      exact ⟨[], by simp⟩
    · have positive : 0 < kCopyBufferBytes := by decide
      simp only [bind_eq_ok, require_eq_ok, refuse_eq_ok, Prod.exists, takeBytes_eq_some] at done
      obtain ⟨chunk, _, ⟨rfl, size⟩, _, -, rest'⟩ := done
      obtain ⟨data, rfl, left, rfl, rfl⟩ := ih (by omega) rest'
      refine ⟨chunk ++ data, by simp, ?_, crc32Update_append _ _ _, by simp⟩
      rw [List.length_append]
      omega

theorem copyPayload_complete {output : Bytes} {fuel round : Nat} {data : Bytes}
    (enough : data.length ≤ fuel) (crc : UInt32) (written rest : Bytes) :
    copyPayload none output fuel round data.length crc written (data ++ rest) =
      .ok (crc32Update crc data, written ++ data, rest) := by
  induction fuel generalizing round data crc written with
  | zero =>
    obtain rfl : data = [] := List.length_eq_zero_iff.mp (by omega)
    simp [copyPayload]
  | succ fuel ih =>
    simp only [copyPayload]
    split
    · rename_i finished
      obtain rfl := List.length_eq_zero_iff.mp finished
      simp
    · have positive : 0 < kCopyBufferBytes := by decide
      generalize kCopyBufferBytes = size at *
      have taken : takeBytes (min data.length size) (data ++ rest) =
          some (data.take (min data.length size), data.drop (min data.length size) ++ rest) := by
        refine takeBytes_eq_some.mpr ⟨?_, ?_⟩
        · rw [← List.append_assoc, List.take_append_drop]
        · rw [List.length_take]
          omega
      have left : data.length - min data.length size = (data.drop (min data.length size)).length := by
        rw [List.length_drop]
      rw [taken, left]
      change copyPayload none output fuel (round + 1) _ _ _ _ = _
      rw [ih (by rw [List.length_drop]; omega), crc32Update_append, List.append_assoc,
        List.take_append_drop]

theorem validRelativePath_eq_true {path : Bytes} : validRelativePath path = true ↔
    path ≠ [] ∧ isAbsolute path = false ∧ ∀ c ∈ components path, c ≠ [46] ∧ c ≠ [46, 46] := by
  simp [validRelativePath, and_assoc]

theorem locate_ne_nil {path : Bytes} (valid : validRelativePath path = true)
    (names : NamesFile path) : locate path ≠ [] := by
  obtain ⟨-, -, dots⟩ := validRelativePath_eq_true.mp valid
  obtain ⟨ws, shape⟩ := exists_stem_names dots
  rw [locate_of_names shape (dif_pos names.2)]
  simp

variable {fault : Option ImportFault} {temp : Bytes} {top : Loc} {start disk disk' : Disk}
  {files : List (Loc × Bytes)} {index total total' : Nat} {v rest : Bytes}

/-- When an entry is staged, and what it then leaves. -/
theorem stageEntry_eq_ok : stageEntry fault temp index total disk v = .ok (total', disk', rest) ↔
    ∃ rel size crc u made l written, readEntryHeader v = some (rel, size, crc, u) ∧
      validRelativePath rel = true ∧
      (fault ≠ some (.createParent index) ∧
        createDirectories (parentPath (append temp rel)) disk = some made) ∧
      (fault ≠ some (.openFile index) ∧ openWrite made (append temp rel) = some l) ∧
      copyPayload (ImportFault.writeAt index fault) (append temp rel) size 0 size 0 [] u =
        .ok (crc, written, rest) ∧
      sumOverflows total size = false ∧ total' = total + size ∧
      disk' = put l (.file (ImportFault.flushed index written fault)) (put l (.file []) made) := by
  simp only [stageEntry, bind_eq_ok, require_eq_ok, refuse_eq_ok, mapError_eq_ok, Prod.exists,
    Bool.not_eq_false', bne_eq_false_iff_eq, Option.ite_none_left_eq_some, pure, Except.pure,
    Except.ok.injEq, Prod.mk.injEq]
  constructor
  · rintro ⟨rel, size, crc, u, header, _, valid, made, prepared, l, opened, _, written, _, copied, _, rfl,
      _, fits, rfl, rfl, rfl⟩
    exact ⟨rel, size, _, u, made, l, written, header, valid, prepared, opened, copied, fits, rfl, rfl⟩
  · rintro ⟨rel, size, crc, u, made, l, written, header, valid, prepared, opened, copied, fits, rfl, rfl⟩
    exact ⟨rel, size, crc, u, header, (), valid, made, prepared, l, opened, crc, written, rest, copied,
      (), rfl, (), fits, rfl, rfl, rfl⟩

/-- A tree an entry comes to: the one it finds, the one with the directories for its file, or
any in which that file has been written. -/
inductive EntryTree (temp : Bytes) (disk : Disk) (v : Bytes) : Disk → Prop
  | found : EntryTree temp disk v disk
  | prepared {rel u : Bytes} {size : Nat} {crc : UInt32} {made : Disk}
      (header : readEntryHeader v = some (rel, size, crc, u)) (valid : validRelativePath rel = true)
      (done : createDirectories (parentPath (append temp rel)) disk = some made) :
      EntryTree temp disk v made
  | written {rel u : Bytes} {size : Nat} {crc : UInt32} {made tree : Disk} {l : Loc}
      (header : readEntryHeader v = some (rel, size, crc, u)) (valid : validRelativePath rel = true)
      (done : createDirectories (parentPath (append temp rel)) disk = some made)
      (opened : openWrite made (append temp rel) = some l) (before : EntryTree temp disk v tree)
      (content : Bytes) : EntryTree temp disk v (put l (.file content) tree)

theorem EntryTree.of_ok (staged : stageEntry fault temp index total disk v = .ok (total', disk', rest)) :
    EntryTree temp disk v disk' := by
  obtain ⟨rel, size, crc, u, made, l, written, header, valid, ⟨-, done⟩, ⟨-, opened⟩, -, -, -, rfl⟩ :=
    stageEntry_eq_ok.mp staged
  exact .written header valid done opened
    (.written header valid done opened (.prepared header valid done) _) _

/-- Every refusal removes the staging directory from the tree it came to. -/
theorem EntryTree.of_error {failure : Failure}
    (stopped : stageEntry fault temp index total disk v = .error (failure, disk')) :
    ∃ tree, EntryTree temp disk v tree ∧ disk' = removeAllAt temp tree := by
  simp only [stageEntry, bind_eq_error, require_eq_error, refuse_eq_error, mapError_eq_error,
    require_eq_ok, refuse_eq_ok, mapError_eq_ok, Prod.exists, Prod.mk.injEq,
    Option.ite_none_left_eq_some, pure, Except.pure, reduceCtorEq, exists_false, or_false,
    and_false, Bool.not_eq_false'] at stopped
  rcases stopped with ⟨-, -, rfl⟩ | ⟨rel, size, crc, u, header, stopped⟩
  · exact ⟨_, .found, rfl⟩
  rcases stopped with ⟨-, -, rfl⟩ | ⟨-, valid, stopped⟩
  · exact ⟨_, .found, rfl⟩
  rcases stopped with ⟨-, -, rfl⟩ | ⟨made, ⟨-, done⟩, stopped⟩
  · exact ⟨_, .found, rfl⟩
  have prepared : EntryTree temp disk v made := .prepared header valid done
  rcases stopped with ⟨-, -, rfl⟩ | ⟨l, ⟨-, opened⟩, stopped⟩
  · exact ⟨_, prepared, rfl⟩
  have emptied : EntryTree temp disk v (put l (.file []) made) :=
    .written header valid done opened prepared []
  rcases stopped with ⟨_, -, -, rfl⟩ | ⟨_, written, _, -, stopped⟩
  · exact ⟨_, emptied, rfl⟩
  rcases stopped with ⟨-, -, rfl⟩ | ⟨-, -, -, -, rfl⟩
  · exact ⟨_, .written header valid done opened emptied _, rfl⟩
  · exact ⟨_, .written header valid done opened emptied _, rfl⟩

/-- A staged entry is read off the container, sound, and put where its path leads to. -/
theorem stageEntry_sound (plain : Plain temp top) (way : ∀ p, p <+: top → get start p = some .dir)
    (staging : Staging start top files disk) (compatible : Compatible (files.map (·.1)))
    (before : total < 2 ^ 64)
    (done : stageEntry fault temp index total disk v = .ok (total', disk', rest)) :
    ∃ e : Record, v = encodeRecord e ++ rest ∧ e.Sound ∧ NamesFile e.path ∧
      Compatible (files.map (·.1) ++ [locate e.path]) ∧
      Staging start top
        (files ++ [(locate e.path, ImportFault.flushed index e.payload fault)]) disk' ∧
      total' = total + e.payload.length ∧ total' < 2 ^ 64 := by
  obtain ⟨rel, size, crc, _, made, l, written, header, valid, ⟨-, madeDirs⟩, ⟨-, opened⟩, copied, fits,
    rfl, rfl⟩ := stageEntry_eq_ok.mp done
  obtain ⟨rfl, short, -⟩ := readEntryHeader_eq_some.mp header
  rw [sumOverflows_eq_false before] at fits
  obtain ⟨_, rfl, rfl, sum, rfl⟩ := copyPayload_sound (Nat.le_refl _) copied
  obtain ⟨-, relative, dots⟩ := validRelativePath_eq_true.mp valid
  obtain ⟨ws, shape⟩ := exists_stem_names dots
  obtain ⟨free, rfl⟩ := (createDirectories_below plain relative shape).mp madeDirs
  obtain ⟨last, named, rfl, -, notDir⟩ := (openWrite_below plain relative shape).mp opened
  have clear : 0 ∉ stem rel := by
    intro cut
    rw [if_pos cut, named] at notDir free
    exact notDir (get_makeDirs_above free (List.prefix_refl _))
  simp only [if_neg clear, List.append_nil] at free notDir ⊢
  have place := locate_of_names shape named
  have names : NamesFile rel := ⟨clear, Name.bytes_of_ofBytes? named ▸ last.valid⟩
  have apart := (staging.place_iff way compatible).mp ⟨free, notDir⟩
  refine ⟨⟨rel, crc, written⟩, by simp [encodeRecord], ⟨short, valid, sum⟩, names, ?_, ?_, rfl,
    fits⟩
  · rw [place]
    exact apart
  · rw [place]
    refine staging.place way fun q => ?_
    have below : top ++ (ws ++ [last]) ≠ [] := by simp
    rw [get_put _ below, get_put _ below]
    by_cases here : q = top ++ (ws ++ [last]) <;> simp [here]

/-- Without a fault that is noticed, a sound entry with a free place is staged. -/
theorem stageEntry_complete (plain : Plain temp top)
    (way : ∀ p, p <+: top → get start p = some .dir) (staging : Staging start top files disk)
    (compatible : Compatible (files.map (·.1))) {e : Record} (sound : e.Sound)
    (names : NamesFile e.path) (apart : Compatible (files.map (·.1) ++ [locate e.path]))
    (fits : total + e.payload.length < 2 ^ 64) (silent : ImportFault.writeAt index fault = none ∧
      fault ≠ some (.createParent index) ∧ fault ≠ some (.openFile index)) :
    ∃ disk', stageEntry fault temp index total disk (encodeRecord e ++ rest) =
      .ok (total + e.payload.length, disk', rest) := by
  obtain ⟨rel, crc, data⟩ := e
  obtain ⟨short, valid, sum⟩ : rel.length ≤ kMaxStringBytes ∧ validRelativePath rel = true ∧
    crc = crc32Update 0 data := sound
  obtain ⟨clear, named⟩ : 0 ∉ stem rel ∧ IsName (filename (cstr rel)) := names
  change total + data.length < 2 ^ 64 at fits
  have before : total < 2 ^ 64 := by omega
  obtain ⟨-, relative, dots⟩ := validRelativePath_eq_true.mp valid
  obtain ⟨ws, shape⟩ := exists_stem_names dots
  have named' : Name.ofBytes? (filename (cstr rel)) = some ⟨_, named⟩ := dif_pos named
  change Compatible (files.map (·.1) ++ [locate rel]) at apart
  rw [locate_of_names shape named'] at apart
  obtain ⟨free, notDir⟩ := (staging.place_iff way compatible).mpr apart
  have madeDirs : createDirectories (parentPath (append temp rel)) disk =
      some (makeDirs [] (top ++ ws) disk) := by
    refine (createDirectories_below plain relative shape).mpr ?_
    simpa only [if_neg clear, List.append_nil, and_true] using free
  have opened : openWrite (makeDirs [] (top ++ ws) disk) (append temp rel) =
      some (top ++ (ws ++ [⟨_, named⟩])) :=
    (openWrite_below plain relative shape).mpr
      ⟨_, named', rfl, get_makeDirs_above free (List.prefix_refl _), notDir⟩
  refine ⟨put (top ++ (ws ++ [⟨_, named⟩])) (.file (ImportFault.flushed index data fault))
    (put (top ++ (ws ++ [⟨_, named⟩])) (.file []) (makeDirs [] (top ++ ws) disk)), ?_⟩
  have header : readEntryHeader (encodeRecord ⟨rel, crc, data⟩ ++ rest) =
      some (rel, data.length, crc, data ++ rest) :=
    readEntryHeader_eq_some.mpr ⟨by simp [encodeRecord], short, by omega⟩
  have copied := @copyPayload_complete (append temp rel) data.length 0 data (Nat.le_refl _) 0 [] rest
  rw [← sum] at copied
  apply stageEntry_eq_ok.mpr
  exact ⟨rel, data.length, crc, data ++ rest, _, _, data, header, valid, ⟨silent.2.1, madeDirs⟩,
    ⟨silent.2.2, opened⟩, silent.1.symm ▸ copied, (sumOverflows_eq_false before).mpr fits, rfl, rfl⟩

theorem removeAllAt_outside (plain : Plain temp top) (below : top ≠ []) {q : Loc}
    (apart : ¬ top <+: q) (disk : Disk) : get (removeAllAt temp disk) q = get disk q := by
  rw [removeAllAt, if_neg (by rw [plain.filled]; decide), plain.locate, get_removeAll below,
    if_neg apart]

/-- Staging adds directories only below the staging directory, since those above are there. -/
theorem makeDirs_outside (way : ∀ p, p <+: top → get start p = some .dir)
    (staging : Staging start top files disk) (names : Loc) {q : Loc} (apart : ¬ top <+: q) :
    get (makeDirs [] (top ++ names) disk) q = get start q := by
  rw [get_makeDirs, staging.outside q apart]
  split
  · rename_i missing
    obtain ⟨absent, -, -, under⟩ := missing
    rcases List.prefix_or_prefix_of_prefix under (List.prefix_append top names) with above | inside
    · rw [way q above] at absent
      cases absent
    · exact absurd inside apart
  · rfl

theorem EntryTree.outside (plain : Plain temp top) (way : ∀ p, p <+: top → get start p = some .dir)
    (staging : Staging start top files disk) (reached : EntryTree temp disk v disk') {q : Loc}
    (apart : ¬ top <+: q) : get disk' q = get start q := by
  induction reached with
  | found => exact staging.outside q apart
  | prepared header valid done =>
    obtain ⟨-, relative, dots⟩ := validRelativePath_eq_true.mp valid
    obtain ⟨ws, shape⟩ := exists_stem_names dots
    obtain ⟨-, rfl⟩ := (createDirectories_below plain relative shape).mp done
    exact makeDirs_outside way staging _ apart
  | written header valid done opened before content ih =>
    obtain ⟨-, relative, dots⟩ := validRelativePath_eq_true.mp valid
    obtain ⟨ws, shape⟩ := exists_stem_names dots
    obtain ⟨last, -, rfl, -, -⟩ := (openWrite_below plain relative shape).mp opened
    have elsewhere : q ≠ top ++ (ws ++ [last]) := by
      rintro rfl
      exact apart (List.prefix_append _ _)
    rw [get_put _ (by simp), if_neg elsewhere]
    exact ih

/-- A refused entry leaves everything outside the staging directory as it was. -/
theorem stageEntry_outside (plain : Plain temp top) (below : top ≠ [])
    (way : ∀ p, p <+: top → get start p = some .dir) (staging : Staging start top files disk)
    {failure : Failure} (stopped : stageEntry fault temp index total disk v =
      .error (failure, disk')) {q : Loc} (apart : ¬ top <+: q) : get disk' q = get start q := by
  obtain ⟨tree, reached, rfl⟩ := EntryTree.of_error stopped
  rw [removeAllAt_outside plain below apart]
  exact reached.outside plain way staging apart

end StagingEntries

section StagingRuns

/-- The files a run of the loop puts below the staging directory, from entry `index` on. -/
def stagedFiles (fault : Option ImportFault) : Nat → List Record → List (Loc × Bytes)
  | _, [] => []
  | index, e :: entries =>
    (locate e.path, ImportFault.flushed index e.payload fault) ::
      stagedFiles fault (index + 1) entries

def places (entries : List Record) : List Loc := entries.map fun e => locate e.path

/-- The only fault, if any, is one the loop does not look at. -/
def ImportFault.Unnoticed (fault : Option ImportFault) : Prop :=
  fault = none ∨ ∃ entry reached, fault = some (.close entry reached)

@[simp] theorem map_fst_stagedFiles (fault : Option ImportFault) (index : Nat)
    (entries : List Record) : (stagedFiles fault index entries).map (·.1) = places entries := by
  induction entries generalizing index with
  | nil => rfl
  | cons e entries ih => simp [stagedFiles, places, ih]

variable {fault : Option ImportFault} {temp : Bytes} {top : Loc} {start disk disk' : Disk}
  {files : List (Loc × Bytes)} {n index total total' : Nat} {v rest : Bytes}

/-- The staging loop reads sound records and stages every one of them. -/
theorem stageEntries_sound (plain : Plain temp top)
    (way : ∀ p, p <+: top → get start p = some .dir) (staging : Staging start top files disk)
    (compatible : Compatible (files.map (·.1))) (before : total < 2 ^ 64)
    (done : stageEntries fault temp n index total disk v = .ok (total', disk', rest)) :
    ∃ entries : List Record, entries.length = n ∧ v = encodeRecords entries ++ rest ∧
      (∀ e ∈ entries, e.Sound ∧ NamesFile e.path) ∧
      Compatible (files.map (·.1) ++ places entries) ∧
      Staging start top (files ++ stagedFiles fault index entries) disk' ∧
      total' = total + payloadTotal entries ∧ total' < 2 ^ 64 := by
  induction n generalizing index total disk v files with
  | zero =>
    cases done
    exact ⟨[], rfl, by simp [encodeRecords], by simp, by simpa [places] using compatible,
      by simpa [stagedFiles] using staging, by simp [payloadTotal], before⟩
  | succ n ih =>
    simp only [stageEntries, bind_eq_ok, Prod.exists] at done
    obtain ⟨_, _, _, first, done⟩ := done
    obtain ⟨e, rfl, sound, names, apart, staging', rfl, fits⟩ :=
      stageEntry_sound plain way staging compatible before first
    obtain ⟨entries, rfl, rfl, all, apart', staging'', rfl, whole⟩ :=
      ih staging' (by simpa using apart) fits done
    refine ⟨e :: entries, rfl, by simp [encodeRecords], ?_, ?_, ?_, ?_, whole⟩
    · simpa using ⟨⟨sound, names⟩, all⟩
    · simpa [places] using apart'
    · simpa [stagedFiles] using staging''
    · simp [payloadTotal, Nat.add_assoc]

theorem stageEntries_complete (plain : Plain temp top)
    (way : ∀ p, p <+: top → get start p = some .dir) (staging : Staging start top files disk)
    (unnoticed : ImportFault.Unnoticed fault) {entries : List Record}
    (all : ∀ e ∈ entries, e.Sound ∧ NamesFile e.path)
    (apart : Compatible (files.map (·.1) ++ places entries))
    (fits : total + payloadTotal entries < 2 ^ 64) :
    ∃ disk', stageEntries fault temp entries.length index total disk
      (encodeRecords entries ++ rest) = .ok (total + payloadTotal entries, disk', rest) := by
  induction entries generalizing index total disk files with
  | nil => exact ⟨disk, by simp [stageEntries, encodeRecords, payloadTotal]⟩
  | cons e entries ih =>
    simp only [List.mem_cons, forall_eq_or_imp] at all
    obtain ⟨⟨sound, names⟩, all⟩ := all
    simp only [payloadTotal, List.map_cons, List.sum_cons] at fits
    have first : Compatible (files.map (·.1)) := apart.mono (List.subset_append_left _ _)
    have second : Compatible (files.map (·.1) ++ [locate e.path]) :=
      apart.mono (by simp [places])
    have fit : total + e.payload.length < 2 ^ 64 := by omega
    have silent : ImportFault.writeAt index fault = none ∧
        fault ≠ some (.createParent index) ∧ fault ≠ some (.openFile index) := by
      rcases unnoticed with rfl | ⟨_, _, rfl⟩ <;> simp [ImportFault.writeAt]
    obtain ⟨disk₁, done⟩ : ∃ disk₁, stageEntry fault temp index total disk
        (encodeRecord e ++ (encodeRecords entries ++ rest)) =
          .ok (total + e.payload.length, disk₁, encodeRecords entries ++ rest) :=
      stageEntry_complete plain way staging first sound names second fit silent
    obtain ⟨e', same, sound', -, -, staging', size, -⟩ :=
      stageEntry_sound plain way staging first (by omega) done
    have short : ∀ r : Record, r.Sound → r.path.length < 2 ^ 32 := fun r s =>
      lt_of_le_of_lt s.1 (by decide)
    obtain ⟨rfl, -⟩ := encodeRecord_append_inj (short e sound) (short e' sound') (by omega)
      (by omega) same
    have third : Compatible ((files ++ [(locate e.path,
        ImportFault.flushed index e.payload fault)]).map (·.1) ++ places entries) := by
      simpa [places] using apart
    have left : total + e.payload.length + payloadTotal entries < 2 ^ 64 := by
      simp only [payloadTotal]
      omega
    obtain ⟨disk₂, rest'⟩ := ih staging' all third left
    refine ⟨disk₂, ?_⟩
    simp only [List.length_cons, stageEntries, encodeRecords, List.flatMap_cons, payloadTotal,
      List.map_cons, List.sum_cons, bind_eq_ok, Prod.exists]
    refine ⟨_, _, _, by rw [List.append_assoc]; exact done, ?_⟩
    rw [← Nat.add_assoc]
    exact rest'

/-- A refused container leaves everything outside the staging directory as it was. -/
theorem stageEntries_outside (plain : Plain temp top) (below : top ≠ [])
    (way : ∀ p, p <+: top → get start p = some .dir) (staging : Staging start top files disk)
    (compatible : Compatible (files.map (·.1))) (before : total < 2 ^ 64) {failure : Failure}
    (stopped : stageEntries fault temp n index total disk v = .error (failure, disk')) {q : Loc}
    (apart : ¬ top <+: q) : get disk' q = get start q := by
  induction n generalizing index total disk v files with
  | zero => cases stopped
  | succ n ih =>
    simp only [stageEntries, bind_eq_error, Prod.exists] at stopped
    rcases stopped with first | ⟨_, _, _, first, stopped⟩
    · exact stageEntry_outside plain below way staging first apart
    · obtain ⟨e, -, -, -, apart', staging', -, fits⟩ :=
        stageEntry_sound plain way staging compatible before first
      exact ih staging' (by simpa using apart') fits stopped

end StagingRuns

section Activation
variable {fault : Option ImportFault} {temp backup stateDirectory : Bytes} {d : Loc}
  {s t b : Name} {disk disk' : Disk}

theorem renameAt_plain {source target : Bytes} {a c : Loc} (ha : Plain source a)
    (hc : Plain target c) : renameAt source target disk = rename a c disk := by
  simp [renameAt, ha.filled, hc.filled, ha.locate, hc.locate]

theorem removeAllAt_plain {path : Bytes} {l : Loc} (plain : Plain path l) :
    removeAllAt path disk = removeAll l disk := by
  rw [removeAllAt, if_neg (by rw [plain.filled]; decide), plain.locate]

theorem get_removeAll_sibling {x y : Name} (differ : x ≠ y) (r : Loc) :
    get (removeAll (d ++ [x]) disk) (d ++ [y] ++ r) = get disk (d ++ [y] ++ r) := by
  rw [get_removeAll (by simp), if_neg (sibling_apart differ r)]

/-- The state directory, the staging directory and the backup lie side by side. -/
structure Sides (stateDirectory temp backup : Bytes) (d : Loc) (s t b : Name) : Prop where
  state : Plain stateDirectory (d ++ [s])
  staging : Plain temp (d ++ [t])
  aside : Plain backup (d ++ [b])
  st : s ≠ t
  sb : s ≠ b
  tb : t ≠ b

/-- The state directory moved aside. -/
def movedAside (d : Loc) (s b : Name) (disk : Disk) : Disk :=
  move (d ++ [s]) (d ++ [b]) (removeAll (d ++ [b]) disk)

theorem rename_aside (sb : s ≠ b) (parent : get disk d = some .dir)
    (present : get disk (d ++ [s]) ≠ none) :
    rename (d ++ [s]) (d ++ [b]) (removeAll (d ++ [b]) disk) = some (movedAside d s b disk) := by
  refine rename_sibling sb ?_ ?_ ?_
  · rw [get_removeAll (by simp), if_neg sibling_not_above_parent, parent]
  · have same := @get_removeAll_sibling d disk b s sb.symm []
    rw [List.append_nil] at same
    rwa [same]
  · rw [get_removeAll (by simp), if_pos (List.prefix_refl _)]

theorem get_movedAside_other {x : Name} (sb : s ≠ b) (xs : x ≠ s) (xb : x ≠ b) (r : Loc) :
    get (movedAside d s b disk) (d ++ [x] ++ r) = get disk (d ++ [x] ++ r) := by
  rw [movedAside, get_move_elsewhere sb (sibling_apart xs.symm r) (sibling_apart xb.symm r),
    get_removeAll_sibling xb.symm]

theorem get_movedAside_parent (sb : s ≠ b) (parent : get disk d = some .dir) :
    get (movedAside d s b disk) d = some .dir := by
  rw [movedAside, get_move_elsewhere sb sibling_not_above_parent sibling_not_above_parent,
    get_removeAll (by simp), if_neg sibling_not_above_parent, parent]

/-- The tree an activation leaves when nothing fails. -/
def activated (d : Loc) (s t b : Name) (disk : Disk) : Disk :=
  if get disk (d ++ [s]) = none then move (d ++ [t]) (d ++ [s]) disk
  else removeAll (d ++ [b]) (move (d ++ [t]) (d ++ [s]) (movedAside d s b disk))

/-- The tree a rolled-back activation leaves. -/
def rolledBack (d : Loc) (s t b : Name) (disk : Disk) : Disk :=
  removeAll (d ++ [t])
    (if get disk (d ++ [s]) = none then disk
      else move (d ++ [b]) (d ++ [s]) (movedAside d s b disk))

theorem activate_eq (sides : Sides stateDirectory temp backup d s t b)
    (parent : get disk d = some .dir) (staged : get disk (d ++ [t]) ≠ none) :
    activate fault temp backup stateDirectory disk =
      if fault = some .inspectState then
        .error (.coded (lit "could not inspect current index state: "),
          removeAll (d ++ [t]) disk)
      else if get disk (d ++ [s]) ≠ none ∧ fault = some .moveAside then
        .error (.coded (lit "could not move current index state aside: "),
          removeAll (d ++ [t]) (removeAll (d ++ [b]) disk))
      else if fault = some .activate then
        .error (.coded (lit "could not activate imported index state: "), rolledBack d s t b disk)
      else .ok (activated d s t b disk) := by
  obtain ⟨hs, ht, hb, st, sb, tb⟩ := sides
  have exist : pathExists disk stateDirectory = (get disk (d ++ [s])).isSome := by
    simp [pathExists, hs.filled, hs.locate]
  simp only [activate]
  simp only [exist, renameAt_plain hs hb, renameAt_plain hb hs, renameAt_plain ht hs,
    removeAllAt_plain ht, removeAllAt_plain hb]
  by_cases inspect : fault = some .inspectState
  · simp [inspect, refuse, bind, Except.bind]
  by_cases previous : get disk (d ++ [s]) = none
  · have replaced := rename_sibling st.symm parent staged previous
    by_cases last : fault = some .activate <;>
      simp [inspect, previous, last, replaced, refuse, require, bind, Except.bind, pure,
        Except.pure, activated, rolledBack]
  · have some_ : (get disk (d ++ [s])).isSome = true := by
      simpa [Option.isSome_iff_ne_none] using previous
    by_cases aside : fault = some .moveAside
    · simp [aside, previous, some_, refuse, require, bind, Except.bind]
    have moved := rename_aside sb parent previous
    have parent' := get_movedAside_parent sb parent
    have gone : get (movedAside d s b disk) (d ++ [s]) = none := by
      have empty := @get_move_source (removeAll (d ++ [b]) disk) d s b sb []
      rwa [List.append_nil] at empty
    have kept : get (movedAside d s b disk) (d ++ [t]) ≠ none := by
      have same := @get_movedAside_other d s b disk t sb st.symm tb []
      rw [List.append_nil] at same
      rwa [same]
    have backed : get (movedAside d s b disk) (d ++ [b]) ≠ none := by
      have one := @get_move_sibling (removeAll (d ++ [b]) disk) d s b sb []
      have two := @get_removeAll_sibling d disk b s sb.symm []
      simp only [List.append_nil] at one two
      rw [movedAside, one, two]
      exact previous
    have replaced := rename_sibling st.symm parent' kept gone
    have restored := rename_sibling sb.symm parent' backed gone
    by_cases last : fault = some .activate <;>
      simp [inspect, previous, some_, aside, last, moved, replaced, restored, refuse, require, bind,
        Except.bind, pure, Except.pure, activated, rolledBack]

/-- An activation that fails leaves the state directory as it was. -/
theorem activate_error (sides : Sides stateDirectory temp backup d s t b)
    (parent : get disk d = some .dir) (staged : get disk (d ++ [t]) ≠ none) {failure : Failure}
    (stopped : activate fault temp backup stateDirectory disk = .error (failure, disk')) (r : Loc) :
    get disk' (d ++ [s] ++ r) = get disk (d ++ [s] ++ r) := by
  rw [activate_eq sides parent staged] at stopped
  obtain ⟨-, -, -, st, sb, tb⟩ := sides
  split at stopped
  · cases stopped
    exact get_removeAll_sibling st.symm r
  split at stopped
  · cases stopped
    rw [get_removeAll_sibling st.symm, get_removeAll_sibling sb.symm]
  split at stopped
  · cases stopped
    rw [rolledBack, get_removeAll_sibling st.symm]
    split
    · rfl
    · rw [get_move_sibling sb.symm, movedAside, get_move_sibling sb, get_removeAll_sibling sb.symm]
  · cases stopped

/-- An activation that succeeds puts the staged tree where the state directory was. -/
theorem activate_ok (sides : Sides stateDirectory temp backup d s t b)
    (parent : get disk d = some .dir) (staged : get disk (d ++ [t]) ≠ none)
    (done : activate fault temp backup stateDirectory disk = .ok disk') (r : Loc) :
    get disk' (d ++ [s] ++ r) = get disk (d ++ [t] ++ r) := by
  rw [activate_eq sides parent staged] at done
  obtain ⟨-, -, -, st, sb, tb⟩ := sides
  split at done
  · cases done
  split at done
  · cases done
  split at done
  · cases done
  · cases done
    simp only [activated]
    split
    · exact get_move_sibling st.symm r
    · rw [get_removeAll_sibling sb.symm, get_move_sibling st.symm,
        get_movedAside_other sb st.symm tb]

end Activation

section Imports
variable {fault : Option ImportFault} {now : Nat × Nat} {disk disk' : Disk}
  {snapshot stateDirectory : Bytes} {d : Loc} {s : Name}

theorem uniqueSibling_eq (suffix : Bytes) (stamp : Nat) :
    uniqueSibling stateDirectory suffix stamp =
      append (parentPath stateDirectory) (filename stateDirectory ++ (suffix ++ decimal stamp)) := by
  rw [uniqueSibling, List.append_assoc]

theorem isSuffix_stamped {suffix : Bytes} (more : IsSuffix suffix) (stamp : Nat) :
    IsSuffix (suffix ++ decimal stamp) := by
  obtain ⟨filled, zero, slash⟩ := more
  refine ⟨by simp [filled], fun member => ?_, fun member => ?_⟩
  · rcases List.mem_append.mp member with first | digit
    · exact zero first
    · exact absurd (isDigit_of_mem_decimal digit) (by decide)
  · rcases List.mem_append.mp member with first | digit
    · exact slash first
    · exact absurd (isDigit_of_mem_decimal digit) (by decide)

/-- The staging directory and the backup are siblings of the state directory, under names of
their own whatever the clock says. -/
theorem exists_sides (plain : Plain stateDirectory (d ++ [s])) (now : Nat × Nat) :
    ∃ t b, Sides stateDirectory (uniqueSibling stateDirectory (lit ".snapshot-import-") now.1)
      (uniqueSibling stateDirectory (lit ".snapshot-backup-") now.2) d s t b := by
  have import_ := isSuffix_stamped (show IsSuffix (lit ".snapshot-import-") by decide) now.1
  have backup_ := isSuffix_stamped (show IsSuffix (lit ".snapshot-backup-") by decide) now.2
  obtain ⟨t, tName, ht⟩ := plain.sibling import_
  obtain ⟨b, bName, hb⟩ := plain.sibling backup_
  refine ⟨t, b, plain, by rwa [uniqueSibling_eq], by rwa [uniqueSibling_eq], ?_, ?_, ?_⟩
  · rintro rfl
    exact import_.1 (List.append_right_eq_self.mp tName.symm)
  · rintro rfl
    exact backup_.1 (List.append_right_eq_self.mp bName.symm)
  · rintro rfl
    have same := tName.symm.trans bName
    rw [List.append_cancel_left_eq] at same
    exact absurd (List.append_inj same (by decide)).1 (by decide)

/-- A container that an import of this tree can take to the end. -/
structure Importable (disk : Disk) (snapshot : Bytes) (d : Loc) (c : Container) : Prop where
  bytes : openRead disk snapshot = some c.encode
  readable : c.Readable
  roots : ∀ root ∈ c.roots, isDirectory disk root = true
  names : ∀ e ∈ c.entries, NamesFile e.path
  apart : Compatible (places c.entries)
  way : NoFileOnWay [] d disk

theorem noFileOnWay_cleared {t : Name} :
    NoFileOnWay [] (d ++ [t]) (removeAll (d ++ [t]) disk) ↔ NoFileOnWay [] d disk := by
  have below : d ++ [t] ≠ [] := by simp
  constructor
  · rintro free q ⟨-, filled, above⟩ content file
    have outside : ¬ d ++ [t] <+: q := fun under =>
      sibling_not_above_parent (under.trans above)
    refine free q ⟨List.nil_prefix, filled, above.trans (List.prefix_append _ _)⟩ content ?_
    rw [get_removeAll below, if_neg outside, file]
  · rintro free q ⟨-, filled, above⟩ content file
    rw [get_removeAll below] at file
    split at file
    · cases file
    · rename_i outside
      rw [List.nil_append] at above
      rcases List.prefix_concat_iff.mp above with rfl | shorter
      · exact outside (List.prefix_refl _)
      · exact free q ⟨List.nil_prefix, filled, shorter⟩ content file

/-- The fresh staging directory, and the tree around it. -/
def stagingStart (d : Loc) (t : Name) (disk : Disk) : Disk :=
  makeDirs [] (d ++ [t]) (removeAll (d ++ [t]) disk)

theorem createStaging_eq_some {temp : Bytes} {t : Name} {made : Disk}
    (plain : Plain temp (d ++ [t])) :
    createDirectories temp (removeAllAt temp disk) = some made ↔
      NoFileOnWay [] d disk ∧ made = stagingStart d t disk := by
  have parts : components (cstr temp) = (d ++ [t]).map Name.bytes ++ [] := by
    rw [plain.cstr_eq, plain.parts, List.append_nil]
  have filled : cstr temp ≠ [] := by simpa using plain.filled
  rw [createDirectories_eq_some filled parts (by simp), removeAllAt_plain plain]
  simp [noFileOnWay_cleared, stagingStart]

theorem stagingStart_way {t : Name} (free : NoFileOnWay [] d disk) :
    ∀ p, p <+: d ++ [t] → get (stagingStart d t disk) p = some .dir :=
  fun _ above => get_makeDirs_above (noFileOnWay_cleared.mpr free) above

theorem staging_start {t : Name} (free : NoFileOnWay [] d disk) :
    Staging (stagingStart d t disk) (d ++ [t]) [] (stagingStart d t disk) := by
  refine Staging.fresh fun r => ?_
  split
  · rename_i top
    subst top
    rw [List.append_nil]
    exact stagingStart_way free _ (List.prefix_refl _)
  · rename_i inside
    rw [stagingStart, get_makeDirs, get_removeAll (by simp), if_pos (List.prefix_append _ _),
      if_neg]
    rintro ⟨-, -, -, below⟩
    have size := below.length_le
    have := List.length_pos_iff.mpr inside
    simp only [List.nil_append, List.length_append] at size
    omega

theorem get_stagingStart_sibling {t : Name} (st : s ≠ t) (r : Loc) :
    get (stagingStart d t disk) (d ++ [s] ++ r) = get disk (d ++ [s] ++ r) := by
  have off : ¬ OnWay [] (d ++ [t]) (d ++ [s] ++ r) := by
    rintro ⟨-, -, below⟩
    rw [List.nil_append] at below
    exact sibling_not_above st ((List.prefix_append _ _).trans below)
  rw [stagingStart, get_makeDirs, if_neg fun both => off both.2, get_removeAll_sibling st.symm]

theorem forM_refuse_eq_ok {ε α : Type} {xs : List α} {bad : α → Bool} {failure : α → ε}
    {u : PUnit} : xs.forM (fun x => refuse (bad x) (failure x)) = .ok u ↔
      ∀ x ∈ xs, bad x = false := by
  induction xs with
  | nil => simp [pure, Except.pure]
  | cons x xs ih =>
    rw [List.forM_eq_forM] at ih ⊢
    rw [List.forM_cons, bind_eq_ok]
    simp [ih]

theorem forM_refuse_eq_error {ε α : Type} {xs : List α} {bad : α → Bool} {failure : α → ε}
    {e : ε} (stopped : xs.forM (fun x => refuse (bad x) (failure x)) = .error e) :
    ∃ x ∈ xs, bad x = true ∧ e = failure x := by
  induction xs with
  | nil => cases stopped
  | cons x xs ih =>
    rw [List.forM_eq_forM] at ih stopped
    rw [List.forM_cons, bind_eq_error, refuse_eq_error] at stopped
    rcases stopped with ⟨here, same⟩ | ⟨_, -, later⟩
    · exact ⟨x, by simp, here, same⟩
    · obtain ⟨y, member, found⟩ := ih later
      exact ⟨y, by simp [member], found⟩

/-- What a successful import has read and what it leaves in the state directory. -/
theorem import_sound (plain : Plain stateDirectory (d ++ [s])) {info : IndexSnapshotInfo}
    (done : importIndexSnapshot fault now disk snapshot stateDirectory = .ok (info, disk')) :
    ∃ c : Container, Importable disk snapshot d c ∧ info = c.info ∧
      ∀ r, get disk' (d ++ [s] ++ r) = stagedNode (stagedFiles fault 0 c.entries) r := by
  obtain ⟨t, b, sides⟩ := exists_sides plain now
  simp only [importIndexSnapshot, bind_eq_ok, require_eq_ok, refuse_eq_ok, mapError_eq_ok,
    Prod.exists, readHeader_eq_ok, forM_refuse_eq_ok, Option.ite_none_left_eq_some,
    createStaging_eq_some sides.staging, Bool.not_eq_false', List.isEmpty_iff, pure, Except.pure,
    Except.ok.injEq, Prod.mk.injEq] at done
  obtain ⟨_, ⟨-, read⟩, parsed, _, ⟨rfl, roots, few, version, -⟩, _, present, _, ⟨-, free, rfl⟩,
    total, staged, _, loop, _, rfl, _, active, rfl, rfl⟩ := done
  obtain ⟨entries, count, shape, all, apart, staging, rfl, fits⟩ :=
    stageEntries_sound sides.staging (stagingStart_way free) (staging_start free)
      (by simp [Compatible]) (by decide) loop
  have parent := staging.parent_dir (stagingStart_way free)
  have present' := staging.top_dir
  refine ⟨⟨parsed.generation, parsed.roots, entries⟩, ⟨?_, ⟨roots, ?_, ?_, ?_⟩, present, ?_, ?_,
    free⟩, ?_, fun r => ?_⟩
  · rw [read]
    simp [Container.encode, count, shape]
  · simpa [count] using few
  · exact fun e member => (all e member).1
  · simpa using fits
  · exact fun e member => (all e member).2
  · simpa using apart
  · simp [Container.info, count, version]
  · rw [activate_ok sides parent (by simp [present']) active, staging.inside]
    simp

/-- An import that nothing stops, or only a fault it does not look at, succeeds. -/
theorem import_complete (plain : Plain stateDirectory (d ++ [s])) {c : Container}
    (able : Importable disk snapshot d c) (unnoticed : ImportFault.Unnoticed fault) :
    ∃ disk', importIndexSnapshot fault now disk snapshot stateDirectory = .ok (c.info, disk') := by
  obtain ⟨t, b, sides⟩ := exists_sides plain now
  obtain ⟨staged, loop⟩ : ∃ staged, stageEntries fault
      (uniqueSibling stateDirectory (lit ".snapshot-import-") now.1) c.entries.length 0 0
      (stagingStart d t disk) (encodeRecords c.entries ++ []) =
        .ok (0 + payloadTotal c.entries, staged, []) :=
    stageEntries_complete sides.staging (stagingStart_way able.way) (staging_start able.way)
      unnoticed (fun e member => ⟨able.readable.sound e member, able.names e member⟩)
      (by simpa using able.apart) (by simpa using able.readable.fits)
  obtain ⟨entries, -, -, -, -, staging, -, -⟩ :=
    stageEntries_sound sides.staging (stagingStart_way able.way) (staging_start able.way)
      (by simp [Compatible]) (by decide) loop
  have parent := staging.parent_dir (stagingStart_way able.way)
  have present : get staged (d ++ [t]) ≠ none := by simp [staging.top_dir]
  have active : activate fault (uniqueSibling stateDirectory (lit ".snapshot-import-") now.1)
      (uniqueSibling stateDirectory (lit ".snapshot-backup-") now.2) stateDirectory staged =
        .ok (activated d s t b staged) := by
    rw [activate_eq sides parent present]
    rcases unnoticed with rfl | ⟨_, _, rfl⟩ <;> simp
  have quiet : fault ≠ some .openSnapshot ∧ fault ≠ some .createStaging := by
    rcases unnoticed with rfl | ⟨_, _, rfl⟩ <;> simp
  refine ⟨activated d s t b staged, ?_⟩
  simp only [importIndexSnapshot, bind_eq_ok, require_eq_ok, refuse_eq_ok, mapError_eq_ok,
    Prod.exists, readHeader_eq_ok, forM_refuse_eq_ok, Option.ite_none_left_eq_some,
    createStaging_eq_some sides.staging, Bool.not_eq_false', List.isEmpty_iff, pure, Except.pure,
    Except.ok.injEq, Prod.mk.injEq]
  rw [List.append_nil, Nat.zero_add] at loop
  exact ⟨_, ⟨quiet.1, able.bytes⟩, { c.info with payloadBytes := 0 }, _,
    ⟨rfl, able.readable.roots, able.readable.few, rfl, rfl⟩, (), able.roots, _,
    ⟨quiet.2, able.way, rfl⟩, _, _, _, loop, (), rfl, _, active, rfl, rfl⟩

/-- A failed import leaves the state directory exactly as it was. -/
theorem import_error (plain : Plain stateDirectory (d ++ [s])) {failure : Failure}
    (stopped : importIndexSnapshot fault now disk snapshot stateDirectory =
      .error (failure, disk')) (r : Loc) :
    get disk' (d ++ [s] ++ r) = get disk (d ++ [s] ++ r) := by
  obtain ⟨t, b, sides⟩ := exists_sides plain now
  have cleared : ∀ tree, get (removeAllAt (uniqueSibling stateDirectory
      (lit ".snapshot-import-") now.1) tree) (d ++ [s] ++ r) = get tree (d ++ [s] ++ r) := by
    intro tree
    rw [removeAllAt_plain sides.staging, get_removeAll_sibling sides.st.symm]
  have off : ¬ d ++ [t] <+: d ++ [s] ++ r := sibling_apart sides.st.symm r
  simp only [importIndexSnapshot, bind_eq_error, require_eq_error, refuse_eq_error,
    mapError_eq_error, require_eq_ok, refuse_eq_ok, mapError_eq_ok, Prod.exists, Prod.mk.injEq,
    forM_refuse_eq_ok, Option.ite_none_left_eq_some, createStaging_eq_some sides.staging,
    pure, Except.pure, reduceCtorEq, exists_false, or_false, and_false] at stopped
  rcases stopped with ⟨-, -, rfl⟩ | ⟨_, -, stopped⟩
  · rfl
  rcases stopped with ⟨_, -, -, rfl⟩ | ⟨parsed, _, -, stopped⟩
  · rfl
  rcases stopped with missing | ⟨_, -, stopped⟩
  · obtain ⟨root, -, -, same⟩ := forM_refuse_eq_error missing
    rw [(Prod.mk.inj same).2]
  rcases stopped with ⟨-, -, rfl⟩ | ⟨_, ⟨-, free, rfl⟩, stopped⟩
  · exact cleared disk
  rcases stopped with loop | ⟨total, staged, _, loop, stopped⟩
  · rw [stageEntries_outside sides.staging (by simp) (stagingStart_way free) (staging_start free)
      (by simp [Compatible]) (by decide) loop off, get_stagingStart_sibling sides.st]
  obtain ⟨entries, -, -, -, -, staging, -, -⟩ :=
    stageEntries_sound sides.staging (stagingStart_way free) (staging_start free)
      (by simp [Compatible]) (by decide) loop
  have same : get staged (d ++ [s] ++ r) = get disk (d ++ [s] ++ r) := by
    rw [staging.outside _ off, get_stagingStart_sibling sides.st]
  rcases stopped with ⟨-, -, rfl⟩ | ⟨_, -, active⟩
  · rw [cleared, same]
  · have parent := staging.parent_dir (stagingStart_way free)
    have present : get staged (d ++ [t]) ≠ none := by simp [staging.top_dir]
    rw [activate_error sides parent present active, same]

end Imports
end Such.IndexSnapshot
