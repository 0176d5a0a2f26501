import Such.Runtime.IndexSnapshot.Container

/-! When an export succeeds, and the bytes it then publishes. The description is exact, so
that what a changing index or an interrupted walk does to the container can be read off. -/
namespace Such.IndexSnapshot
open ByteText Wire FileSystem

section Streams

def Within (limit : Option Nat) (out : Bytes) : Prop := ∀ n ∈ limit, out.length ≤ n

instance (limit : Option Nat) (out : Bytes) : Decidable (Within limit out) :=
  inferInstanceAs (Decidable (∀ n ∈ limit, out.length ≤ n))

variable {limit : Option Nat}

@[simp] theorem within_none (out : Bytes) : Within none out := fun _ member => by cases member

theorem Within.left {out v : Bytes} (all : Within limit (out ++ v)) : Within limit out := by
  intro n member
  have := all n member
  rw [List.length_append] at this
  omega

/-- With nothing to append the stream stays as it is, and within its limit. -/
theorem Within.nothing_more {out out' : Bytes} (start : Within limit out) :
    out = out' ↔ out' = out ∧ Within limit out' := by
  constructor
  · rintro rfl
    exact ⟨rfl, start⟩
  · intro done
    exact done.1.symm

theorem emit_eq_some {out v out' : Bytes} :
    emit limit out v = some out' ↔ out' = out ++ v ∧ Within limit (out ++ v) := by
  cases limit <;> simp [emit, Within, eq_comm, and_comm]

theorem writeString_eq_some {out v out' : Bytes} : writeString limit out v = some out' ↔
    v.length < 2 ^ 32 ∧ out' = out ++ encodeString v ∧ Within limit (out ++ encodeString v) := by
  simp only [writeString]
  split
  · rename_i long
    simp only [reduceCtorEq, false_iff]
    omega
  · rename_i short
    simp only [writeU32, Option.bind_eq_bind, Option.bind_eq_some_iff, emit_eq_some, encodeString]
    constructor
    · rintro ⟨_, ⟨rfl, -⟩, rfl, whole⟩
      rw [← List.append_assoc]
      exact ⟨by omega, rfl, whole⟩
    · rintro ⟨-, rfl, whole⟩
      rw [← List.append_assoc] at whole ⊢
      exact ⟨_, ⟨rfl, whole.left⟩, rfl, whole⟩

theorem writeHeader_eq_some {roots : List Bytes} {count : Nat} (same : roots.length = count)
    {generation : UInt64} {entries : Nat} {out : Bytes} :
    writeHeader limit count generation entries = some out ↔
      out ++ roots.flatMap encodeString = encodeHeader generation roots entries ∧
        Within limit out := by
  subst same
  simp only [writeHeader, writeU32, writeU64, Option.bind_eq_bind, Option.bind_eq_some_iff,
    emit_eq_some, encodeHeader, List.nil_append, List.append_left_inj]
  constructor
  · rintro ⟨_, ⟨rfl, -⟩, _, ⟨rfl, -⟩, _, ⟨rfl, -⟩, _, ⟨rfl, -⟩, rfl, whole⟩
    exact ⟨rfl, whole⟩
  · rintro ⟨rfl, whole⟩
    exact ⟨_, ⟨rfl, whole.left.left.left.left⟩, _, ⟨rfl, whole.left.left.left⟩, _,
      ⟨rfl, whole.left.left⟩, _, ⟨rfl, whole.left⟩, rfl, whole⟩

theorem writeRoots_eq_some {roots : List Bytes} {out out' : Bytes} (start : Within limit out) :
    roots.foldlM (fun out root => writeString limit out (pathUtf8 root)) out = some out' ↔
      (∀ root ∈ roots, (pathUtf8 root).length < 2 ^ 32) ∧
        out' = out ++ (roots.map pathUtf8).flatMap encodeString ∧ Within limit out' := by
  induction roots generalizing out with
  | nil =>
    simp only [List.foldlM_nil, pure, Option.some.injEq, List.map_nil, List.flatMap_nil,
      List.append_nil, List.not_mem_nil, false_implies, implies_true, true_and]
    exact start.nothing_more
  | cons root roots ih =>
    simp only [List.foldlM_cons, Option.bind_eq_bind, Option.bind_eq_some_iff, writeString_eq_some,
      List.mem_cons, forall_eq_or_imp, List.map_cons, List.flatMap_cons, ← List.append_assoc]
    constructor
    · rintro ⟨_, ⟨short, rfl, room⟩, rest⟩
      obtain ⟨all, rfl, whole⟩ := (ih room).mp rest
      exact ⟨⟨short, all⟩, rfl, whole⟩
    · rintro ⟨⟨short, all⟩, rfl, whole⟩
      exact ⟨_, ⟨short, rfl, whole.left⟩, (ih whole.left).mpr ⟨all, rfl, whole⟩⟩

/-- The checksum pass reads the whole file. -/
theorem crcFile_eq {fuel : Nat} (crc : UInt32) {v : Bytes} (enough : v.length < fuel) :
    crcFile fuel crc v = crc32Update crc v := by
  induction fuel generalizing crc v with
  | zero => omega
  | succ fuel ih =>
    have positive : 0 < kCopyBufferBytes := by decide
    have skip : (if (v.take kCopyBufferBytes).isEmpty then crc
        else crc32Update crc (v.take kCopyBufferBytes)) =
        crc32Update crc (v.take kCopyBufferBytes) := by
      split
      · rename_i empty
        rw [List.isEmpty_iff.mp empty, crc32Update_nil]
      · rfl
    rw [crcFile, skip]
    split
    · rename_i short
      rw [List.length_take] at short
      rw [List.take_of_length_le (by omega)]
    · rename_i full
      rw [List.length_take] at full
      rw [ih _ (by rw [List.length_drop]; omega), crc32Update_append, List.take_append_drop]

theorem copyFile_eq_ok {fuel remaining : Nat} (enough : remaining ≤ fuel) {path v out out' : Bytes}
    (start : Within limit out) : copyFile limit path fuel remaining v out = .ok out' ↔
      remaining ≤ v.length ∧ out' = out ++ v.take remaining ∧ Within limit out' := by
  induction fuel generalizing remaining v out with
  | zero =>
    obtain rfl : remaining = 0 := by omega
    simp only [copyFile, Except.ok.injEq, Nat.zero_le, List.take_zero, List.append_nil, true_and]
    exact start.nothing_more
  | succ fuel ih =>
    simp only [copyFile]
    split
    · rename_i done
      subst done
      simp only [Except.ok.injEq, Nat.zero_le, List.take_zero, List.append_nil, true_and]
      exact start.nothing_more
    · rename_i more
      have positive : 0 < kCopyBufferBytes := by decide
      generalize kCopyBufferBytes = size at *
      have shorter : remaining - min remaining size ≤ fuel := by omega
      simp only [bind_eq_ok, require_eq_ok, Prod.exists, takeBytes_eq_some, emit_eq_some]
      constructor
      · rintro ⟨data, v, ⟨rfl, taken⟩, _, ⟨rfl, room⟩, rest⟩
        obtain ⟨long, rfl, whole⟩ := (ih shorter room).mp rest
        have joined : (data ++ v).take remaining = data ++ v.take (remaining - min remaining size) := by
          rw [List.take_append, List.take_of_length_le (by omega), taken]
        rw [joined, ← List.append_assoc, List.length_append]
        exact ⟨by omega, rfl, whole⟩
      · rintro ⟨long, rfl, whole⟩
        have joined : v.take remaining = v.take (min remaining size) ++
            (v.drop (min remaining size)).take (remaining - min remaining size) := by
          rw [← List.take_add]
          congr 1
          omega
        have room : Within limit (out ++ v.take (min remaining size)) := by
          rw [joined, ← List.append_assoc] at whole
          exact whole.left
        have left : remaining - min remaining size ≤ (v.drop (min remaining size)).length := by
          rw [List.length_drop]
          omega
        have rest := (ih shorter room).mpr ⟨left, by rw [joined, ← List.append_assoc], whole⟩
        refine ⟨_, _, ⟨(List.take_append_drop (min remaining size) v).symm, ?_⟩, _,
          ⟨rfl, room⟩, rest⟩
        rw [List.length_take]
        omega

end Streams

section Entries
variable {limit : Option Nat}

/-- The container's entry for a state file: the checksum of one read beside the bytes of
another, cut to the size of a third. -/
def StateEntry.record (entry : StateEntry) : Record :=
  ⟨entry.relativeUtf8, crc32Update 0 entry.view.atCrc, entry.view.atCopy.take entry.size⟩

/-- What the writing loop asks of a state file. -/
def StateEntry.Copied (entry : StateEntry) : Prop :=
  entry.view.opens = true ∧ entry.relativeUtf8.length < 2 ^ 32 ∧
    entry.size ≤ entry.view.atCopy.length

instance (entry : StateEntry) : Decidable entry.Copied := inferInstanceAs (Decidable (_ ∧ _))

theorem exportEntry_eq_ok {out out' : Bytes} {entry : StateEntry} :
    exportEntry limit out entry = .ok out' ↔ entry.Copied ∧
      out' = out ++ encodeRecord entry.record ∧ Within limit out' := by
  simp only [exportEntry, writeEntryHeader, writeU64, writeU32, bind_eq_ok, refuse_eq_ok,
    require_eq_ok, Option.bind_eq_bind, Option.bind_eq_some_iff, writeString_eq_some, emit_eq_some,
    crcFile_eq _ (Nat.lt_succ_self _), Bool.not_eq_false', StateEntry.Copied]
  constructor
  · rintro ⟨_, opens, _, ⟨_, ⟨short, rfl, -⟩, _, ⟨rfl, -⟩, rfl, room⟩, copied⟩
    obtain ⟨long, rfl, whole⟩ := (copyFile_eq_ok (Nat.le_refl _) room).mp copied
    refine ⟨⟨opens, short, long⟩, ?_, whole⟩
    simp [encodeRecord, StateEntry.record, Nat.min_eq_left long]
  · rintro ⟨⟨opens, short, long⟩, rfl, whole⟩
    have shape : out ++ encodeRecord entry.record = out ++ encodeString entry.relativeUtf8 ++
        encodeLE 8 entry.size ++ encodeLE 4 (crc32Update 0 entry.view.atCrc).toNat ++
          entry.view.atCopy.take entry.size := by
      simp [encodeRecord, StateEntry.record, Nat.min_eq_left long]
    rw [shape] at whole ⊢
    exact ⟨(), opens, _, ⟨_, ⟨short, rfl, whole.left.left.left⟩, _, ⟨rfl, whole.left.left⟩, rfl,
      whole.left⟩, (copyFile_eq_ok (Nat.le_refl _) whole.left).mpr ⟨long, rfl, whole⟩⟩

theorem exportEntries_eq_ok {out out' : Bytes} {entries : List StateEntry}
    (start : Within limit out) : entries.foldlM (exportEntry limit) out = .ok out' ↔
      (∀ entry ∈ entries, entry.Copied) ∧
        out' = out ++ encodeRecords (entries.map (·.record)) ∧ Within limit out' := by
  induction entries generalizing out with
  | nil =>
    simp only [List.foldlM_nil, pure, Except.pure, Except.ok.injEq, encodeRecords, List.map_nil,
      List.flatMap_nil, List.append_nil, List.not_mem_nil, false_implies, implies_true, true_and]
    exact start.nothing_more
  | cons entry entries ih =>
    simp only [List.foldlM_cons, bind_eq_ok, exportEntry_eq_ok, List.mem_cons, forall_eq_or_imp,
      List.map_cons, encodeRecords, List.flatMap_cons, ← List.append_assoc]
    constructor
    · rintro ⟨_, ⟨copied, rfl, room⟩, rest⟩
      obtain ⟨all, rfl, whole⟩ := (ih room).mp rest
      exact ⟨⟨copied, all⟩, rfl, whole⟩
    · rintro ⟨⟨copied, all⟩, rfl, whole⟩
      exact ⟨_, ⟨copied, rfl, whole.left⟩, (ih whole.left).mpr ⟨all, rfl, whole⟩⟩

/-- The container an export of these entries writes. -/
def containerOf (roots : List Bytes) (generation : UInt64) (entries : List StateEntry) : Container :=
  ⟨generation, roots.map pathUtf8, entries.map (·.record)⟩

theorem writeSnapshot_eq_ok {roots : List Bytes} {generation : UInt64} {entries : List StateEntry}
    {out : Bytes} : writeSnapshot limit roots generation entries = .ok out ↔
      (∀ root ∈ roots, (pathUtf8 root).length < 2 ^ 32) ∧ (∀ entry ∈ entries, entry.Copied) ∧
        out = (containerOf roots generation entries).encode ∧ Within limit out := by
  simp only [writeSnapshot, bind_eq_ok, require_eq_ok,
    writeHeader_eq_some (by simp : (roots.map pathUtf8).length = roots.length),
    Container.encode, containerOf, List.length_map]
  constructor
  · rintro ⟨head, ⟨header, room⟩, _, roots_, entries_⟩
    obtain ⟨short, rfl, room'⟩ := (writeRoots_eq_some room).mp roots_
    obtain ⟨copied, rfl, whole⟩ := (exportEntries_eq_ok room').mp entries_
    rw [header] at whole ⊢
    exact ⟨short, copied, rfl, whole⟩
  · rintro ⟨short, copied, rfl, whole⟩
    obtain ⟨head, header⟩ : ∃ head, head ++ (roots.map pathUtf8).flatMap encodeString =
        encodeHeader generation (roots.map pathUtf8) entries.length := ⟨_, rfl⟩
    have room := whole.left
    rw [← header] at room
    exact ⟨head, ⟨header, room.left⟩, _, (writeRoots_eq_some room.left).mpr ⟨short, rfl, room⟩,
      (exportEntries_eq_ok room).mpr ⟨copied, by rw [header], whole⟩⟩

end Entries

section Walk
variable (stateDirectory : Bytes)

def EntryView.path (entry : EntryView) : Bytes := append stateDirectory (joinNames entry.names)

/-- A regular file that no exclusion keeps at home. -/
def EntryView.Carried (entry : EntryView) : Prop :=
  entry.status = some .regular ∧ excludedStateFile (entry.path stateDirectory) = false

instance (entry : EntryView) : Decidable (entry.Carried stateDirectory) :=
  inferInstanceAs (Decidable (_ ∧ _))

def EntryView.stateEntry (entry : EntryView) : StateEntry :=
  ⟨entry.path stateDirectory, pathUtf8 (joinNames entry.names), entry.fileSize.getD 0, entry⟩

def Visit.Passed (visit : Visit) : Prop :=
  visit.code = false ∧ visit.entry.status ≠ none ∧ visit.entry.status ≠ some .symlink ∧
    (visit.entry.Carried stateDirectory → visit.entry.relativizes = true ∧
      visit.entry.names ≠ [] ∧ visit.entry.fileSize ≠ none)

instance (visit : Visit) : Decidable (visit.Passed stateDirectory) :=
  inferInstanceAs (Decidable (_ ∧ _))

/-- The files a walk finds to export, in its order. -/
def carried (visits : List Visit) : List StateEntry :=
  ((visits.map (·.entry)).filter fun entry => decide (entry.Carried stateDirectory)).map
    (·.stateEntry stateDirectory)

def sizeTotal (entries : List StateEntry) : Nat := (entries.map (·.size)).sum

variable {stateDirectory}

/-- The step passes by exactly the entries that are not carried. -/
theorem passedBy_iff {entry : EntryView} {status : FileKind} (known : entry.status = some status) :
    (status != .regular || excludedStateFile (append stateDirectory (joinNames entry.names))) = true ↔
      ¬ entry.Carried stateDirectory := by
  rw [Bool.or_eq_true, bne_iff_ne]
  constructor
  · rintro passed ⟨regular, kept⟩
    rw [known] at regular
    rcases passed with other | excluded
    · exact other (Option.some.inj regular)
    · exact absurd (kept.symm.trans excluded) Bool.false_ne_true
  · intro home
    by_contra neither
    rw [not_or, not_not, Bool.not_eq_true] at neither
    exact home ⟨by rw [known, neither.1], neither.2⟩

theorem collectStep_eq_ok {es es' : List StateEntry} {t t' : Nat} {visit : Visit}
    (before : t < 2 ^ 64) :
    collectStep stateDirectory (es, t) visit = .ok (es', t') ↔ visit.Passed stateDirectory ∧
      if visit.entry.Carried stateDirectory then
        es.length < kMaxEntries ∧
          t + (visit.entry.stateEntry stateDirectory).size < 2 ^ 64 ∧
          es' = es ++ [visit.entry.stateEntry stateDirectory] ∧
          t' = t + (visit.entry.stateEntry stateDirectory).size
      else es' = es ∧ t' = t := by
  obtain ⟨code, entry⟩ := visit
  simp only [collectStep]
  simp only [bind_eq_ok, refuse_eq_ok, require_eq_ok, Visit.Passed]
  constructor
  · rintro ⟨_, rfl, status, known, _, plain, rest⟩
    have notLink : status ≠ .symlink := by simpa using plain
    by_cases travels : entry.Carried stateDirectory
    · rw [if_neg (mt (passedBy_iff known).mp (not_not.mpr travels))] at rest
      simp only [bind_eq_ok, refuse_eq_ok, require_eq_ok, Bool.or_eq_false_iff, Bool.not_eq_false',
        List.isEmpty_eq_false_iff, ne_eq, joinNames_eq_nil, decide_eq_false_iff_not, not_le,
        sumOverflows_eq_false before, pure, Except.pure, Except.ok.injEq, Prod.mk.injEq] at rest
      obtain ⟨_, ⟨relative, below⟩, size, sized, _, few, _, fits, rfl, rfl⟩ := rest
      have same : (entry.stateEntry stateDirectory).size = size := by
        simp [EntryView.stateEntry, sized]
      rw [if_pos travels, known, same]
      refine ⟨⟨rfl, by simp, by simpa using notLink, fun _ => ⟨relative, below, by simp [sized]⟩⟩,
        few, fits, ?_, rfl⟩
      simp [EntryView.stateEntry, EntryView.path, sized]
    · rw [if_pos ((passedBy_iff known).mpr travels)] at rest
      simp only [pure, Except.pure, Except.ok.injEq, Prod.mk.injEq] at rest
      rw [if_neg travels, known]
      exact ⟨⟨rfl, by simp, by simpa using notLink, fun carried => absurd carried travels⟩,
        rest.1.symm, rest.2.symm⟩
  · rintro ⟨⟨rfl, known, plain, carriedOnly⟩, result⟩
    obtain ⟨status, known⟩ := Option.ne_none_iff_exists'.mp known
    rw [known] at plain
    refine ⟨(), rfl, status, known, (), by simpa using plain, ?_⟩
    by_cases travels : entry.Carried stateDirectory
    · obtain ⟨relative, below, sized⟩ := carriedOnly travels
      obtain ⟨size, sized⟩ := Option.ne_none_iff_exists'.mp sized
      have same : (entry.stateEntry stateDirectory).size = size := by
        simp [EntryView.stateEntry, sized]
      rw [if_pos travels, same] at result
      obtain ⟨few, fits, rfl, rfl⟩ := result
      rw [if_neg (mt (passedBy_iff known).mp (not_not.mpr travels))]
      simp only [bind_eq_ok, refuse_eq_ok, require_eq_ok, Bool.or_eq_false_iff, Bool.not_eq_false',
        List.isEmpty_eq_false_iff, ne_eq, joinNames_eq_nil, decide_eq_false_iff_not, not_le,
        sumOverflows_eq_false before, pure, Except.pure, Except.ok.injEq, Prod.mk.injEq]
      refine ⟨(), ⟨relative, below⟩, size, sized, (), few, (), fits, ?_, rfl⟩
      simp [EntryView.stateEntry, EntryView.path, sized]
    · rw [if_neg travels] at result
      rw [if_pos ((passedBy_iff known).mpr travels), result.1, result.2]
      rfl

theorem collect_eq_ok {walk : List Visit} {es entries : List StateEntry} {t total : Nat}
    (few : es.length ≤ kMaxEntries) (before : t < 2 ^ 64) :
    walk.foldlM (collectStep stateDirectory) (es, t) = .ok (entries, total) ↔
      (∀ visit ∈ walk, visit.Passed stateDirectory) ∧
        entries = es ++ carried stateDirectory walk ∧
        total = t + sizeTotal (carried stateDirectory walk) ∧
        entries.length ≤ kMaxEntries ∧ total < 2 ^ 64 := by
  induction walk generalizing es t with
  | nil =>
    simp only [List.foldlM_nil, pure, Except.pure, Except.ok.injEq, Prod.mk.injEq, carried,
      List.map_nil, List.filter_nil, List.append_nil, sizeTotal, List.sum_nil, Nat.add_zero,
      List.not_mem_nil, false_implies, implies_true, true_and]
    constructor
    · rintro ⟨rfl, rfl⟩
      exact ⟨rfl, rfl, few, before⟩
    · rintro ⟨rfl, rfl, -, -⟩
      exact ⟨rfl, rfl⟩
  | cons visit walk ih =>
    simp only [List.foldlM_cons, bind_eq_ok, Prod.exists, collectStep_eq_ok before, List.mem_cons,
      forall_eq_or_imp]
    by_cases travels : visit.entry.Carried stateDirectory
    · have found : carried stateDirectory (visit :: walk) =
          visit.entry.stateEntry stateDirectory :: carried stateDirectory walk := by
        simp [carried, travels]
      simp only [if_pos travels, found]
      constructor
      · rintro ⟨_, _, ⟨passed, room, fits, rfl, rfl⟩, rest⟩
        have bound : (es ++ [visit.entry.stateEntry stateDirectory]).length ≤ kMaxEntries := by
          rw [List.length_append, List.length_singleton]
          exact room
        obtain ⟨all, rfl, rfl, fewer, whole⟩ := (ih bound fits).mp rest
        refine ⟨⟨passed, all⟩, by simp, by simp [sizeTotal, Nat.add_assoc], fewer, whole⟩
      · rintro ⟨⟨passed, all⟩, rfl, rfl, fewer, whole⟩
        simp only [sizeTotal, List.map_cons, List.sum_cons] at whole
        simp only [List.length_append, List.length_cons] at fewer
        refine ⟨_, _, ⟨passed, by omega, by omega, rfl, rfl⟩,
          (ih (by rw [List.length_append, List.length_singleton]; omega) (by omega)).mpr
            ⟨all, by simp, by simp [sizeTotal, Nat.add_assoc], ?_, ?_⟩⟩
        · rw [List.length_append, List.length_cons]
          omega
        · simp only [sizeTotal, List.map_cons, List.sum_cons]
          omega
    · have found : carried stateDirectory (visit :: walk) = carried stateDirectory walk := by
        simp [carried, travels]
      simp only [if_neg travels, found]
      constructor
      · rintro ⟨_, _, ⟨passed, rfl, rfl⟩, rest⟩
        obtain ⟨all, rest⟩ := (ih few before).mp rest
        exact ⟨⟨passed, all⟩, rest⟩
      · rintro ⟨⟨passed, all⟩, rest⟩
        exact ⟨es, t, ⟨passed, rfl, rfl⟩, (ih few before).mpr ⟨all, rest⟩⟩

theorem collectStateEntries_eq_ok {disk : Disk} {walk : Walk} {entries : List StateEntry}
    {total : Nat} : collectStateEntries disk stateDirectory walk = .ok (entries, total) ↔
      isDirectory disk stateDirectory = true ∧
        (∀ visit ∈ walk.visits, visit.Passed stateDirectory) ∧ entries = carried stateDirectory walk.visits ∧
        total = sizeTotal entries ∧ entries.length ≤ kMaxEntries ∧ total < 2 ^ 64 := by
  simp only [collectStateEntries, bind_eq_ok, refuse_eq_ok, Bool.not_eq_false', exists_const,
    collect_eq_ok (show ([] : List StateEntry).length ≤ kMaxEntries from Nat.zero_le _)
      (show 0 < 2 ^ 64 by decide), List.nil_append, Nat.zero_add]
  constructor
  · rintro ⟨present, all, rfl, rest⟩
    exact ⟨present, all, rfl, rest⟩
  · rintro ⟨present, all, rfl, rest⟩
    exact ⟨present, all, rfl, rest⟩

end Walk

section Publication

/-- The system lets these bytes take the place of the snapshot, leaving `published`. -/
def Publishes (fault : Option ExportFault) (disk : Disk) (snapshot out : Bytes)
    (published : Disk) : Prop :=
  ∃ made l, makeOutputDirectory fault snapshot disk = some made ∧ fault ≠ some .openTemp ∧
    openWrite made (snapshot ++ lit ".tmp") = some l ∧ fault ≠ some .finalize ∧
    fault ≠ some .publish ∧
    renameAt (snapshot ++ lit ".tmp") snapshot
      (if fault = some .remove then put l (.file out) made
        else removeAt snapshot (put l (.file out) made)) = some published

theorem tmp_notMem : 0 ∉ lit ".tmp" ∧ 47 ∉ lit ".tmp" ∧ lit ".tmp" ≠ [] := by decide

/-- A destination without a file name has its temporary file inside it. -/
theorem tmp_below {snapshot : Bytes} (bare : filename (cstr snapshot) = [])
    (named : filename (cstr (snapshot ++ lit ".tmp")) ≠ []) :
    ∃ last, locate (snapshot ++ lit ".tmp") = locate snapshot ++ [last] := by
  by_cases zero : 0 ∈ snapshot
  · rw [cstr_append_of_mem zero] at named
    exact absurd bare named
  · have clear : cstr snapshot = snapshot := cstr_of_notMem zero
    have whole : cstr (snapshot ++ lit ".tmp") = snapshot ++ lit ".tmp" :=
      cstr_of_notMem fun member => (List.mem_append.mp member).elim zero tmp_notMem.1
    have slash : stem snapshot = snapshot := by
      have := stem_append_filename snapshot
      rw [clear] at bare
      rwa [bare, List.append_nil] at this
    have tail : components (lit ".tmp") = [lit ".tmp"] := by decide
    have split : components (snapshot ++ lit ".tmp") = components snapshot ++ [lit ".tmp"] := by
      have := components_stem_append snapshot (lit ".tmp")
      rwa [slash, tail] at this
    have name : (Name.ofBytes? (lit ".tmp")).isSome = true := by decide
    obtain ⟨last, name⟩ := Option.isSome_iff_exists.mp name
    refine ⟨last, ?_⟩
    rw [locate, locate, whole, clear, split, List.foldl_append]
    simp only [List.foldl_cons, List.foldl_nil, enter, name]

/-- What was written is what a reader of the published snapshot gets. -/
theorem Publishes.openRead {fault : Option ExportFault} {disk published : Disk}
    {snapshot out : Bytes} (done : Publishes fault disk snapshot out published) :
    openRead published snapshot = some out := by
  obtain ⟨made, l, -, -, opened, -, -, renamed⟩ := done
  obtain ⟨name, named, -, place, -, -⟩ := openWrite_eq_some.mp opened
  simp only [renameAt] at renamed
  split at renamed
  · cases renamed
  · rename_i filled
    rw [Bool.or_eq_true, not_or, Bool.not_eq_true, Bool.not_eq_true] at filled
    rw [← place] at renamed
    have kept : ∀ d, d = put l (.file out) made ∨ d = removeAt snapshot (put l (.file out) made) →
        l ≠ [] → get d l ≠ none → get d l = some (.file out) := by
      rintro d (rfl | rfl) below present
      · rw [get_put _ below, if_pos rfl]
      · simp only [removeAt, filled.2, Bool.false_eq_true, if_false] at present ⊢
        rcases get_remove (locate snapshot) l with same | gone
        · rw [same, get_put _ below, if_pos rfl]
        · exact absurd gone present
    obtain ⟨below, top, present, moved⟩ := rename_cases renamed
    have source := kept _ (by split <;> simp) below present
    have arrived : get published (locate snapshot) = some (.file out) := by
      rcases moved with ⟨same, rfl⟩ | ⟨apart, apart', rfl⟩
      · rw [← same, source]
      · rw [get_move below top apart apart', if_pos (List.prefix_refl _)]
        simpa using source
    have name : (filename (cstr snapshot)).isEmpty = false := by
      rw [List.isEmpty_eq_false_iff]
      intro bare
      have filled' : filename (cstr (snapshot ++ lit ".tmp")) ≠ [] := by
        rw [← Name.bytes_of_ofBytes? named]
        exact name.valid.1
      obtain ⟨last, inside⟩ := tmp_below bare filled'
      rw [← place] at inside
      rcases moved with ⟨same, -⟩ | ⟨-, apart', -⟩
      · rw [same] at inside
        simp at inside
      · exact apart' ⟨[last], inside.symm⟩
    simp [FileSystem.openRead, filled.2, arrived, name]

variable {fault : Option ExportFault} {walk : Walk} {disk : Disk}
  {stateDirectory snapshot : Bytes} {roots : List Bytes} {generation : UInt64}

/-- The container a walk's files make. -/
def exported (stateDirectory : Bytes) (walk : Walk) (roots : List Bytes)
    (generation : UInt64) : Container :=
  containerOf roots generation (carried stateDirectory walk.visits)

/-- What an export needs of its surroundings, apart from the place it writes to. -/
structure Exportable (fault : Option ExportFault) (walk : Walk) (disk : Disk)
    (stateDirectory : Bytes) (roots : List Bytes) (generation : UInt64) : Prop where
  present : isDirectory disk stateDirectory = true
  passed : ∀ visit ∈ walk.visits, visit.Passed stateDirectory
  few : (carried stateDirectory walk.visits).length ≤ kMaxEntries
  fits : sizeTotal (carried stateDirectory walk.visits) < 2 ^ 64
  fewRoots : roots.length ≤ kMaxRoots
  shortRoots : ∀ root ∈ roots, (pathUtf8 root).length < 2 ^ 32
  copied : ∀ entry ∈ carried stateDirectory walk.visits, entry.Copied
  room : Within (ExportFault.limit fault) (exported stateDirectory walk roots generation).encode

theorem publishSnapshot_eq_ok {made published : Disk} {out : Bytes} {entries : List StateEntry} :
    publishSnapshot fault made (snapshot ++ lit ".tmp") snapshot roots generation entries =
        .ok (out, published) ↔
      writeSnapshot (ExportFault.limit fault) roots generation entries = .ok out ∧
        ∃ l, fault ≠ some .openTemp ∧ openWrite made (snapshot ++ lit ".tmp") = some l ∧
          fault ≠ some .finalize ∧ fault ≠ some .publish ∧
          renameAt (snapshot ++ lit ".tmp") snapshot
            (if fault = some .remove then put l (.file out) made
              else removeAt snapshot (put l (.file out) made)) = some published := by
  simp only [publishSnapshot, bind_eq_ok, require_eq_ok, refuse_eq_ok, mapError_eq_ok,
    Option.ite_none_left_eq_some, decide_eq_false_iff_not, pure, Except.pure, Except.ok.injEq,
    Prod.mk.injEq]
  constructor
  · rintro ⟨l, ⟨notOpen, opened⟩, _, written, _, notFinal, _, ⟨notPublish, renamed⟩, rfl, rfl⟩
    exact ⟨written, l, notOpen, opened, notFinal, notPublish, renamed⟩
  · rintro ⟨written, l, notOpen, opened, notFinal, notPublish, renamed⟩
    exact ⟨l, ⟨notOpen, opened⟩, out, written, (), notFinal, published, ⟨notPublish, renamed⟩,
      rfl, rfl⟩

/-- An export succeeds exactly when its surroundings allow it, and then publishes the
container of the files its walk found. -/
theorem exportIndexSnapshot_eq_ok {info : IndexSnapshotInfo} {published : Disk} :
    exportIndexSnapshot fault walk disk stateDirectory snapshot roots generation =
        .ok (info, published) ↔
      Exportable fault walk disk stateDirectory roots generation ∧
        Publishes fault disk snapshot (exported stateDirectory walk roots generation).encode
          published ∧
        info = { formatVersion := kFormatVersion, generation,
                 payloadBytes := sizeTotal (carried stateDirectory walk.visits),
                 fileCount := (carried stateDirectory walk.visits).length, roots } := by
  simp only [exportIndexSnapshot, bind_eq_ok, Prod.exists, mapError_eq_ok,
    collectStateEntries_eq_ok, refuse_eq_ok, require_eq_ok, decide_eq_false_iff_not, not_lt,
    publishSnapshot_eq_ok, writeSnapshot_eq_ok, pure, Except.pure, Except.ok.injEq, Prod.mk.injEq]
  constructor
  · rintro ⟨_, _, ⟨present, passed, rfl, rfl, few, fits⟩, _, fewRoots, made, madeDir, _, _,
      ⟨⟨short, copied, rfl, room⟩, l, notOpen, opened, notFinal, notPublish, renamed⟩, rfl, rfl⟩
    exact ⟨⟨present, passed, few, fits, fewRoots, short, copied, room⟩,
      ⟨made, l, madeDir, notOpen, opened, notFinal, notPublish, renamed⟩, rfl⟩
  · rintro ⟨able, ⟨made, l, madeDir, notOpen, opened, notFinal, notPublish, renamed⟩, rfl⟩
    exact ⟨_, _, ⟨able.present, able.passed, rfl, rfl, able.few, able.fits⟩, (), able.fewRoots,
      made, madeDir, _, _, ⟨⟨able.shortRoots, able.copied, rfl, able.room⟩, l, notOpen, opened,
      notFinal, notPublish, renamed⟩, rfl, rfl⟩

end Publication
end Such.IndexSnapshot
