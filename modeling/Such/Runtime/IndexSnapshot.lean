import Such.Base.FileSystem
import Such.Base.Wire

/-! Transport of a built runtime state: a container file holding the search roots, the
generation and a checksummed copy of every state file. Files change under the export's
hands, so each state file is given by what its three reads see; a failing step of the
system is a parameter of the export and of the import. -/
namespace Such.IndexSnapshot
open ByteText Wire FileSystem

def kMagic : Bytes := lit "SUCHIDX1"
def kFormatVersion : Nat := 1
def kMaxStringBytes : Nat := 1024 * 1024
def kMaxEntries : Nat := 1000000
def kMaxRoots : Nat := 4096
def kCopyBufferBytes : Nat := 1024 * 1024

structure IndexSnapshotInfo where
  formatVersion : Nat
  generation : UInt64
  payloadBytes : Nat
  fileCount : Nat
  roots : List Bytes
deriving DecidableEq, Repr

/-- The text of a refusal; a coded one ends with the system's own message. -/
inductive Failure where
  | plain (text : Bytes)
  | coded (text : Bytes)
deriving DecidableEq, Repr

section Refusing
variable {ε α β : Type}

def require (value : Option α) (failure : ε) : Except ε α :=
  match value with
  | some a => .ok a
  | none => .error failure

def refuse (condition : Bool) (failure : ε) : Except ε Unit :=
  if condition then .error failure else .ok ()

@[simp] theorem require_eq_ok {value : Option α} {failure : ε} {a : α} :
    require value failure = .ok a ↔ value = some a := by
  cases value <;> simp [require]

@[simp] theorem refuse_eq_ok {condition : Bool} {failure : ε} {u : Unit} :
    refuse condition failure = .ok u ↔ condition = false := by
  cases condition <;> simp [refuse]

theorem bind_eq_ok {x : Except ε α} {f : α → Except ε β} {b : β} :
    x >>= f = .ok b ↔ ∃ a, x = .ok a ∧ f a = .ok b := by
  cases x <;> simp [bind, Except.bind]

theorem bind_eq_error {x : Except ε α} {f : α → Except ε β} {e : ε} :
    x >>= f = .error e ↔ x = .error e ∨ ∃ a, x = .ok a ∧ f a = .error e := by
  cases x <;> simp [bind, Except.bind]

theorem mapError_eq_ok {ε' : Type} {x : Except ε α} {f : ε → ε'} {a : α} :
    x.mapError f = .ok a ↔ x = .ok a := by
  cases x <;> simp [Except.mapError]

theorem mapError_eq_error {ε' : Type} {x : Except ε α} {f : ε → ε'} {e' : ε'} :
    x.mapError f = .error e' ↔ ∃ e, x = .error e ∧ f e = e' := by
  cases x <;> simp [Except.mapError]

theorem require_eq_error {value : Option α} {failure e : ε} :
    require value failure = .error e ↔ value = none ∧ e = failure := by
  cases value <;> simp [require, eq_comm]

theorem refuse_eq_error {condition : Bool} {failure e : ε} :
    refuse condition failure = .error e ↔ condition = true ∧ e = failure := by
  cases condition <;> simp [refuse, eq_comm]

end Refusing

def pathUtf8 (path : Bytes) : Bytes := generic path

def validRelativePath (path : Bytes) : Bool :=
  !path.isEmpty && !isAbsolute path && (components path).all fun c => c != [46] && c != [46, 46]

def excludedStateFile (path : Bytes) : Bool :=
  let name := filename path
  name.isEmpty || extension path == lit ".lock" || extension path == lit ".tmp" ||
    (4 ≤ name.length && name.drop (name.length - 4) == lit ".new")

def uniqueSibling (stateDirectory suffix : Bytes) (now : Nat) : Bytes :=
  append (parentPath stateDirectory) (filename stateDirectory ++ suffix ++ decimal now)

def crcBit (crc : UInt32) : UInt32 := (crc >>> 1) ^^^ (0xedb88320 &&& (0 - (crc &&& 1)))

def crcByte (crc : UInt32) (b : UInt8) : UInt32 := crcBit^[8] (crc ^^^ b.toUInt32)

def crc32Update (crc : UInt32) (data : Bytes) : UInt32 := ~~~(data.foldl crcByte (~~~crc))

section Reading

def readU32 : Bytes → Option (Nat × Bytes) := takeLE 4
def readU64 : Bytes → Option (Nat × Bytes) := takeLE 8
def readString : Bytes → Option (Bytes × Bytes) := takeString kMaxStringBytes

def readRoots : Nat → Bytes → Option (List Bytes × Bytes)
  | 0, v => some ([], v)
  | n + 1, v => do
    let (root, v) ← readString v
    if root.isEmpty then none
    else
      let (roots, v) ← readRoots n v
      some (root :: roots, v)

/-- Root count, generation and entry count, each within its limit. -/
def readCounts (v : Bytes) : Option (Nat × UInt64 × Nat × Bytes) := do
  let (rootCount, v) ← readU32 v
  let (generation, v) ← readU64 v
  let (entryCount, v) ← readU32 v
  if kMaxRoots < rootCount ∨ kMaxEntries < entryCount then none
  else some (rootCount, UInt64.ofNat generation, entryCount, v)

def readHeader (v : Bytes) : Except Failure (IndexSnapshotInfo × Bytes) := do
  let (magic, v) ← require (takeBytes kMagic.length v) (.plain (lit "not a Such index snapshot"))
  refuse (magic != kMagic) (.plain (lit "not a Such index snapshot"))
  let (version, v) ← require (readU32 v) (.plain (lit "unsupported Such index snapshot format"))
  refuse (version != kFormatVersion) (.plain (lit "unsupported Such index snapshot format"))
  let (rootCount, generation, entryCount, v) ←
    require (readCounts v) (.plain (lit "corrupt Such index snapshot header"))
  let (roots, v) ←
    require (readRoots rootCount v) (.plain (lit "corrupt Such index snapshot root table"))
  return ({ formatVersion := version, generation, payloadBytes := 0, fileCount := entryCount,
            roots }, v)

/-- An entry's path, payload size and checksum. -/
def readEntryHeader (v : Bytes) : Option (Bytes × Nat × UInt32 × Bytes) := do
  let (rel, v) ← readString v
  let (size, v) ← readU64 v
  let (crc, v) ← readU32 v
  some (rel, size, UInt32.ofNat crc, v)

def kTruncatedHeader : Failure := .plain (lit "truncated Such index snapshot entry header")
def kTruncatedPayload : Failure := .plain (lit "truncated Such index snapshot payload")
def kPayloadOverflow : Failure := .plain (lit "Such index snapshot payload size overflow")
def kTrailingBytes : Failure := .plain (lit "unexpected trailing bytes in Such index snapshot")

def unsafePath (rel : Bytes) : Failure :=
  .plain (lit "unsafe path in Such index snapshot: " ++ rel)

def crcMismatch (rel : Bytes) : Failure :=
  .plain (lit "Such index snapshot CRC mismatch: " ++ rel)

/-- `max - total < size` of 64-bit sums. -/
def sumOverflows (total size : Nat) : Bool := 2 ^ 64 - 1 - total < size

/-- Checks `remaining` bytes a buffer at a time; every round takes at least one byte. -/
def crcPayload : Nat → Nat → UInt32 → Bytes → Option (UInt32 × Bytes)
  | 0, _, crc, v => some (crc, v)
  | fuel + 1, remaining, crc, v =>
    if remaining = 0 then some (crc, v)
    else do
      let chunk := min remaining kCopyBufferBytes
      let (data, v) ← takeBytes chunk v
      crcPayload fuel (remaining - chunk) (crc32Update crc data) v

def inspectEntry (total : Nat) (v : Bytes) : Except Failure (Nat × Bytes) := do
  let (rel, size, expected, v) ← require (readEntryHeader v) kTruncatedHeader
  refuse (!validRelativePath rel) (unsafePath rel)
  let (crc, v) ← require (crcPayload size size 0 v) kTruncatedPayload
  refuse (crc != expected) (crcMismatch rel)
  refuse (sumOverflows total size) kPayloadOverflow
  return (total + size, v)

def inspectEntries : Nat → Nat → Bytes → Except Failure (Nat × Bytes)
  | 0, total, v => .ok (total, v)
  | n + 1, total, v => do
    let (total, v) ← inspectEntry total v
    inspectEntries n total v

def inspectBytes (v : Bytes) : Except Failure IndexSnapshotInfo := do
  let (parsed, v) ← readHeader v
  let (total, v) ← inspectEntries parsed.fileCount 0 v
  refuse (!v.isEmpty) kTrailingBytes
  return { parsed with payloadBytes := total }

def couldNotOpen (snapshot : Bytes) : Failure :=
  .plain (lit "could not open snapshot: " ++ snapshot)

def inspectIndexSnapshot (disk : Disk) (snapshot : Bytes) : Except Failure IndexSnapshotInfo := do
  let v ← require (openRead disk snapshot) (couldNotOpen snapshot)
  inspectBytes v

end Reading

section Exporting

inductive FileKind where
  | regular
  | directory
  | symlink
  | other
deriving DecidableEq, Repr

/-- One entry of the state directory as the export's calls see it. The contents seen by the
checksum pass and by the copy pass differ when somebody writes in between. -/
structure EntryView where
  names : Loc
  /-- `none` when the status query fails. -/
  status : Option FileKind
  relativizes : Bool
  /-- The answer of the size query. -/
  fileSize : Option Nat
  opens : Bool
  atCrc : Bytes
  atCopy : Bytes
deriving DecidableEq

/-- A position of the directory iterator, with the error code its last move left. -/
structure Visit where
  code : Bool
  entry : EntryView

/-- The positions of a whole iteration. `code` tells whether an error made the iterator the end
iterator. -/
structure Walk where
  visits : List Visit
  code : Bool := false

structure StateEntry where
  absolute : Bytes
  relativeUtf8 : Bytes
  size : Nat
  view : EntryView

def collectStep (stateDirectory : Bytes) (collected : List StateEntry × Nat) (visit : Visit) :
    Except Failure (List StateEntry × Nat) := do
  let entry := visit.entry
  let p := append stateDirectory (joinNames entry.names)
  refuse visit.code (.coded (lit "could not enumerate index state: "))
  let status ← require entry.status (.plain (lit "could not inspect index state entry: " ++ p))
  refuse (status == .symlink) (.plain (lit "snapshot refuses symlinks in index state: " ++ p))
  if status != .regular || excludedStateFile p then return collected
  let rel := joinNames entry.names
  refuse (!entry.relativizes || rel.isEmpty)
    (.plain (lit "could not relativize index state entry: " ++ p))
  let size ← require entry.fileSize (.plain (lit "could not stat index state entry: " ++ p))
  refuse (kMaxEntries ≤ collected.1.length)
    (.plain (lit "snapshot contains too many state files"))
  refuse (sumOverflows collected.2 size) (.plain (lit "snapshot payload size overflow"))
  return (collected.1 ++ [⟨p, pathUtf8 rel, size, entry⟩], collected.2 + size)

-- The loop is left at the end iterator without a look at the code it was reached with.
def collectStateEntries (disk : Disk) (stateDirectory : Bytes) (walk : Walk) :
    Except Failure (List StateEntry × Nat) := do
  refuse (!isDirectory disk stateDirectory)
    (.plain (lit "index state directory is missing: " ++ stateDirectory))
  walk.visits.foldlM (collectStep stateDirectory) ([], 0)

inductive ExportFault where
  | createDirectories
  | openTemp
  /-- The stream goes bad past this many bytes. -/
  | write (limit : Nat)
  | finalize
  | remove
  | publish
deriving DecidableEq

/-- Appends to a stream that takes no more than `limit` bytes. -/
def emit (limit : Option Nat) (out v : Bytes) : Option Bytes :=
  if limit.all fun n => decide ((out ++ v).length ≤ n) then some (out ++ v) else none

def writeU32 (limit : Option Nat) (out : Bytes) (n : Nat) : Option Bytes :=
  emit limit out (encodeLE 4 n)

def writeU64 (limit : Option Nat) (out : Bytes) (n : Nat) : Option Bytes :=
  emit limit out (encodeLE 8 n)

def writeString (limit : Option Nat) (out v : Bytes) : Option Bytes := do
  if 2 ^ 32 - 1 < v.length then none
  else
    let out ← writeU32 limit out v.length
    emit limit out v

def writeHeader (limit : Option Nat) (roots : Nat) (generation : UInt64) (entries : Nat) :
    Option Bytes := do
  let out ← emit limit [] kMagic
  let out ← writeU32 limit out kFormatVersion
  let out ← writeU32 limit out roots
  let out ← writeU64 limit out generation.toNat
  writeU32 limit out entries

/-- Reads to the end of the file; a short round is the last one. -/
def crcFile : Nat → UInt32 → Bytes → UInt32
  | 0, crc, _ => crc
  | fuel + 1, crc, v =>
    let data := v.take kCopyBufferBytes
    let crc := if data.isEmpty then crc else crc32Update crc data
    if data.length < kCopyBufferBytes then crc else crcFile fuel crc (v.drop kCopyBufferBytes)

def changedWhileExported (path : Bytes) : Failure :=
  .plain (lit "index state file changed while snapshot was being exported: " ++ path)

def copyFile (limit : Option Nat) (path : Bytes) :
    Nat → Nat → Bytes → Bytes → Except Failure Bytes
  | 0, _, _, out => .ok out
  | fuel + 1, remaining, v, out =>
    if remaining = 0 then .ok out
    else do
      let want := min remaining kCopyBufferBytes
      let (data, v) ← require (takeBytes want v) (changedWhileExported path)
      let out ← require (emit limit out data) (.plain (lit "could not write snapshot payload"))
      copyFile limit path fuel (remaining - want) v out

def writeEntryHeader (limit : Option Nat) (out : Bytes) (entry : StateEntry) (crc : UInt32) :
    Option Bytes := do
  let out ← writeString limit out entry.relativeUtf8
  let out ← writeU64 limit out entry.size
  writeU32 limit out crc.toNat

def exportEntry (limit : Option Nat) (out : Bytes) (entry : StateEntry) : Except Failure Bytes := do
  refuse (!entry.view.opens) (.plain (lit "could not read index state file: " ++ entry.absolute))
  let crc := crcFile (entry.view.atCrc.length + 1) 0 entry.view.atCrc
  let out ← require (writeEntryHeader limit out entry crc)
    (.plain (lit "could not write snapshot entry header"))
  copyFile limit entry.absolute entry.size entry.size entry.view.atCopy out

def writeSnapshot (limit : Option Nat) (roots : List Bytes) (generation : UInt64)
    (entries : List StateEntry) : Except Failure Bytes := do
  let out ← require (writeHeader limit roots.length generation entries.length)
    (.plain (lit "could not write snapshot header"))
  let out ← require (roots.foldlM (fun out root => writeString limit out (pathUtf8 root)) out)
    (.plain (lit "could not write snapshot root table"))
  entries.foldlM (exportEntry limit) out

def removeAllAt (path : Bytes) (disk : Disk) : Disk :=
  if (cstr path).isEmpty then disk else removeAll (locate path) disk

def removeAt (path : Bytes) (disk : Disk) : Disk :=
  if (cstr path).isEmpty then disk else remove (locate path) disk

def renameAt (source target : Bytes) (disk : Disk) : Option Disk :=
  if (cstr source).isEmpty || (cstr target).isEmpty then none
  else rename (locate source) (locate target) disk

def ExportFault.limit : Option ExportFault → Option Nat
  | some (.write limit) => some limit
  | _ => none

/-- A refusal, and the tree it leaves behind. -/
abbrev Stopped := Failure × Disk

def finalDisk {α : Type} : Except Stopped (α × Disk) → Disk
  | .ok (_, disk) => disk
  | .error (_, disk) => disk

/-- From the temporary file to the published snapshot; every refusal removes the temporary
file on the way out. -/
def publishSnapshot (fault : Option ExportFault) (disk : Disk) (temp snapshot : Bytes)
    (roots : List Bytes) (generation : UInt64) (entries : List StateEntry) :
    Except Stopped (Bytes × Disk) := do
  let cleaned := removeAllAt temp disk
  let l ← require (if fault = some .openTemp then none else openWrite disk temp)
    (.plain (lit "could not create snapshot: " ++ temp), cleaned)
  let out ← (writeSnapshot (ExportFault.limit fault) roots generation entries).mapError
    (·, cleaned)
  refuse (fault = some .finalize) (.plain (lit "could not finalize snapshot"), cleaned)
  let disk := put l (.file out) disk
  let disk := if fault = some .remove then disk else removeAt snapshot disk
  let published ← require (if fault = some .publish then none else renameAt temp snapshot disk)
    (.coded (lit "could not publish snapshot: "), removeAllAt temp disk)
  return (out, published)

def makeOutputDirectory (fault : Option ExportFault) (snapshot : Bytes) (disk : Disk) :
    Option Disk :=
  if (parentPath snapshot).isEmpty then some disk
  else if fault = some .createDirectories then none
  else createDirectories (parentPath snapshot) disk

def exportIndexSnapshot (fault : Option ExportFault) (walk : Walk) (disk : Disk)
    (stateDirectory snapshot : Bytes) (roots : List Bytes) (generation : UInt64) :
    Except Stopped (IndexSnapshotInfo × Disk) := do
  let (entries, total) ← (collectStateEntries disk stateDirectory walk).mapError (·, disk)
  refuse (kMaxRoots < roots.length) (.plain (lit "too many search roots for snapshot"), disk)
  let disk ← require (makeOutputDirectory fault snapshot disk)
    (.coded (lit "could not create snapshot output directory: "), disk)
  let temp := snapshot ++ lit ".tmp"
  let (_, disk) ← publishSnapshot fault disk temp snapshot roots generation entries
  return ({ formatVersion := kFormatVersion, generation, payloadBytes := total,
            fileCount := entries.length, roots }, disk)

end Exporting

section Importing

inductive ImportFault where
  | openSnapshot
  | createStaging
  | createParent (entry : Nat)
  | openFile (entry : Nat)
  | write (entry chunk : Nat)
  /-- The last flush of a staged file fails; that many of its bytes are on disk. -/
  | close (entry reached : Nat)
  | inspectState
  | moveAside
  | activate
deriving DecidableEq

/-- The entry of the failing write and its chunk, when it is in this entry. -/
def ImportFault.writeAt (entry : Nat) : Option ImportFault → Option Nat
  | some (.write i chunk) => if i = entry then some chunk else none
  | _ => none

/-- What of a staged file's bytes survives closing it; the code does not ask. -/
def ImportFault.flushed (entry : Nat) (written : Bytes) : Option ImportFault → Bytes
  | some (.close i reached) => if i = entry then written.take reached else written
  | _ => written

/-- Copies and checks `remaining` bytes a buffer at a time. -/
def copyPayload (failAt : Option Nat) (output : Bytes) :
    Nat → Nat → Nat → UInt32 → Bytes → Bytes → Except Failure (UInt32 × Bytes × Bytes)
  | 0, _, _, crc, written, v => .ok (crc, written, v)
  | fuel + 1, round, remaining, crc, written, v =>
    if remaining = 0 then .ok (crc, written, v)
    else do
      let chunk := min remaining kCopyBufferBytes
      let (data, v) ← require (takeBytes chunk v) kTruncatedPayload
      let crc := crc32Update crc data
      refuse (failAt == some round) (.plain (lit "could not write imported state file: " ++ output))
      copyPayload failAt output fuel (round + 1) (remaining - chunk) crc (written ++ data) v

/-- One entry of the container, copied into the staging directory; every refusal removes
that directory. -/
def stageEntry (fault : Option ImportFault) (temp : Bytes) (index total : Nat) (disk : Disk)
    (v : Bytes) : Except Stopped (Nat × Disk × Bytes) := do
  let (rel, size, expected, v) ←
    require (readEntryHeader v) (kTruncatedHeader, removeAllAt temp disk)
  refuse (!validRelativePath rel) (unsafePath rel, removeAllAt temp disk)
  let output := append temp rel
  let disk ← require
    (if fault = some (.createParent index) then none
      else createDirectories (parentPath output) disk)
    (.coded (lit "could not create snapshot state directory: "), removeAllAt temp disk)
  let l ← require (if fault = some (.openFile index) then none else openWrite disk output)
    (.plain (lit "could not create imported state file: " ++ output), removeAllAt temp disk)
  let disk := put l (.file []) disk
  let (crc, written, v) ←
    (copyPayload (ImportFault.writeAt index fault) output size 0 size 0 [] v).mapError
      (·, removeAllAt temp disk)
  let disk := put l (.file (ImportFault.flushed index written fault)) disk
  refuse (crc != expected) (crcMismatch rel, removeAllAt temp disk)
  refuse (sumOverflows total size) (kPayloadOverflow, removeAllAt temp disk)
  return (total + size, disk, v)

def stageEntries (fault : Option ImportFault) (temp : Bytes) :
    Nat → Nat → Nat → Disk → Bytes → Except Stopped (Nat × Disk × Bytes)
  | 0, _, total, disk, v => .ok (total, disk, v)
  | n + 1, index, total, disk, v => do
    let (total, disk, v) ← stageEntry fault temp index total disk v
    stageEntries fault temp n (index + 1) total disk v

/-- Replaces the state directory by the staged one, moving the old one aside first and back
when the replacement fails. -/
def activate (fault : Option ImportFault) (temp backup stateDirectory : Bytes) (disk : Disk) :
    Except Stopped Disk := do
  refuse (fault = some .inspectState)
    (.coded (lit "could not inspect current index state: "), removeAllAt temp disk)
  let hadPrevious := pathExists disk stateDirectory
  let cleared := if hadPrevious then removeAllAt backup disk else disk
  let aside ← require
    (if !hadPrevious then some cleared
      else if fault = some .moveAside then none
      else renameAt stateDirectory backup cleared)
    (.coded (lit "could not move current index state aside: "), removeAllAt temp cleared)
  let restored := if hadPrevious then (renameAt backup stateDirectory aside).getD aside else aside
  let active ← require
    (if fault = some .activate then none else renameAt temp stateDirectory aside)
    (.coded (lit "could not activate imported index state: "), removeAllAt temp restored)
  return if hadPrevious then removeAllAt backup active else active

def missingRoot (root : Bytes) : Failure :=
  .plain (lit "snapshot root is not available at the original path: " ++ root)

/-- The staging directory is named with the clock's `now.1` and the backup with `now.2`. -/
def importIndexSnapshot (fault : Option ImportFault) (now : Nat × Nat) (disk : Disk)
    (snapshot stateDirectory : Bytes) : Except Stopped (IndexSnapshotInfo × Disk) := do
  let v ← require (if fault = some .openSnapshot then none else openRead disk snapshot)
    (couldNotOpen snapshot, disk)
  let (parsed, v) ← (readHeader v).mapError (·, disk)
  parsed.roots.forM fun root =>
    refuse (!isDirectory disk root) (missingRoot root, disk)
  let temp := uniqueSibling stateDirectory (lit ".snapshot-import-") now.1
  let backup := uniqueSibling stateDirectory (lit ".snapshot-backup-") now.2
  let disk := removeAllAt temp disk
  let disk ← require (if fault = some .createStaging then none else createDirectories temp disk)
    (.coded (lit "could not create snapshot import staging directory: "), disk)
  let (total, disk, v) ← stageEntries fault temp parsed.fileCount 0 0 disk v
  refuse (!v.isEmpty) (kTrailingBytes, removeAllAt temp disk)
  let disk ← activate fault temp backup stateDirectory disk
  return ({ parsed with payloadBytes := total }, disk)

end Importing
end Such.IndexSnapshot
