import Such.Base.LexicalPath
import Such.Base.OctalEscape
import Such.Base.Representatives

/-! The folders the Linux frontend offers for indexing: the home directory, the mounted file
systems and the shares of the desktop's own SMB mounts. -/
namespace Such.LinuxIndexRoots
open ByteText LexicalPath OctalEscape

structure IndexRootCandidate where
  path : Bytes
  label : Bytes
  networkShare : Bool := false
deriving DecidableEq, Repr

structure IndexRootDiscoveryConfig where
  mountinfoPath : Bytes := lit "/proc/self/mountinfo"
  homeOverride : Option Bytes := none
  gvfsRootOverride : Option Bytes := none
deriving DecidableEq, Repr

/-- What the process sees of its system. A file that cannot be read has no text, and the entries
of a directory end at the first error. -/
structure LinuxHost where
  environment : Bytes → Option Bytes
  accountHome : Option Bytes
  userId : Nat
  fileText : Bytes → Bytes
  isDirectory : Bytes → Bool
  opensDirectory : Bytes → Bool
  entries : Bytes → List Bytes
  equivalent : Bytes → Bytes → Bool
  equivalent_comm : ∀ a b, equivalent a b = equivalent b a
  weaklyCanonical : Bytes → Option Bytes

def decodeMountField (value : Bytes) : Bytes := unescape value

def pseudoFilesystem (type : Bytes) : Bool :=
  (["proc", "sysfs", "devtmpfs", "devpts", "securityfs", "cgroup", "cgroup2", "pstore", "debugfs",
    "tracefs", "configfs", "fusectl", "mqueue", "hugetlbfs", "rpc_pipefs", "binfmt_misc", "autofs",
    "selinuxfs", "efivarfs", "bpf"].map lit).contains type

def sambaFilesystem (type : Bytes) : Bool :=
  (["cifs", "smb3", "smbfs", "fuse.smbnetfs"].map lit).contains type

/-- A directory itself, or anything whose text goes on below it. -/
def atOrUnder (directory value : Bytes) : Bool :=
  value == directory || startsWith value (directory ++ lit "/")

def systemMountPath (path : Bytes) : Bool :=
  let value := lexicallyNormal .posix path
  value.isEmpty || value == lit "/" ||
    (["/proc", "/sys", "/dev", "/boot", "/snap", "/var/lib/docker", "/var/lib/containers"].map
      lit).any (atOrUnder · value) ||
    (atOrUnder (lit "/run") value && !atOrUnder (lit "/run/media") value)

/-- The fields of a mount the discovery looks at; the source is still escaped. -/
structure Mount where
  mountPoint : Bytes
  fsType : Bytes
  source : Bytes
deriving DecidableEq, Repr

/-- Empty lines are no different from other lines with too few fields. -/
def lines (text : Bytes) : List Bytes := fields (· == 10) text

def readMount (line : Bytes) : Option Mount :=
  let tokens := words line
  match tokens.idxOf? (lit "-") with
  | none => none
  | some dash =>
    if tokens.length < 7 || tokens.length ≤ dash + 2 || dash ≤ 4 then none
    else some {
      mountPoint := decodeMountField (tokens.getD 4 [])
      fsType := tokens.getD (dash + 1) []
      source := tokens.getD (dash + 2) [] }

def dropSlashPairs : Bytes → Bytes
  | a :: b :: rest => if a == 47 && b == 47 then dropSlashPairs rest else a :: b :: rest
  | short => short

def trimSmbSource (source : Bytes) : Bytes := dropSlashPairs (decodeMountField source)

/-- The last server and the last share a list of settings names. -/
def smbNames (settings : List Bytes) : Bytes × Bytes :=
  settings.foldl (fun (server, share) field =>
    let key := field.takeWhile (· != 61)
    let value := (field.dropWhile (· != 61)).drop 1
    if !field.contains 61 then (server, share)
    else if key = lit "server" then (value, share)
    else if key = lit "share" then (server, value)
    else (server, share)) ([], [])

def smbPrefix : Bytes := lit "smb-share:"

def gvfsSmbLabel (name : Bytes) : Bytes :=
  if !startsWith name smbPrefix then []
  else
    let settings := name.drop smbPrefix.length
    let (server, share) := smbNames (settings.splitOn 44)
    if !server.isEmpty && !share.isEmpty then lit "SMB " ++ server ++ lit "/" ++ share
    else if !server.isEmpty then lit "SMB " ++ server
    else lit "SMB " ++ settings

/-- Where no other label is known, the last name of the path, or all of it. -/
def pathLabel (path : Bytes) : Bytes :=
  if (filename .posix path).isEmpty then path else filename .posix path

section Discovery
variable (host : LinuxHost)

def indexRootAccessible (path : Bytes) : Bool := host.isDirectory path && host.opensDirectory path

def sameDirectory (lhs rhs : Bytes) : Bool :=
  host.equivalent lhs rhs ||
    match host.weaklyCanonical lhs, host.weaklyCanonical rhs with
    | some left, some right => left == right
    | _, _ => lexicallyNormal .posix lhs == lexicallyNormal .posix rhs

def userHome : Option Bytes :=
  match host.environment (lit "HOME") with
  | some (b :: rest) => some (b :: rest)
  | _ => host.accountHome.filter (!·.isEmpty)

def userGvfsRoot : Option Bytes :=
  match host.environment (lit "XDG_RUNTIME_DIR") with
  | some (b :: rest) => some (joinName .posix (b :: rest) (lit "gvfs"))
  | _ => some (joinName .posix (joinName .posix (lit "/run/user") (decimal host.userId)) (lit "gvfs"))

def addCandidate (out : List IndexRootCandidate) (path label : Bytes) (networkShare : Bool)
    (allowRuntimePath : Bool := false) : List IndexRootCandidate :=
  if path.isEmpty || (!allowRuntimePath && systemMountPath path) then out
  else if !indexRootAccessible host path then out
  else if out.any fun item => sameDirectory host item.path path then out
  else out ++ [{
    path := path
    label := if label.isEmpty then pathLabel path else label
    networkShare := networkShare }]

def mountLabel (home : Option Bytes) (mount : Mount) : Bytes :=
  if home.any (sameDirectory host mount.mountPoint) then lit "Home"
  else if sambaFilesystem mount.fsType then
    let source := trimSmbSource mount.source
    lit "SMB " ++ if source.isEmpty then filename .posix mount.mountPoint else source
  else filename .posix mount.mountPoint

def addMount (home : Option Bytes) (out : List IndexRootCandidate) (mount : Mount) :
    List IndexRootCandidate :=
  if pseudoFilesystem mount.fsType || systemMountPath mount.mountPoint then out
  else addCandidate host out mount.mountPoint (mountLabel host home mount)
    (sambaFilesystem mount.fsType)

def addMounts (home : Option Bytes) (mounts : List Mount) (out : List IndexRootCandidate) :
    List IndexRootCandidate :=
  mounts.foldl (addMount host home) out

def addGvfsSambaCandidates (gvfsRoot : Option Bytes) (out : List IndexRootCandidate) :
    List IndexRootCandidate :=
  match gvfsRoot with
  | none => out
  | some root =>
    if !host.isDirectory root then out
    else (host.entries root).foldl (fun out name =>
      if startsWith name smbPrefix then
        addCandidate host out (joinName .posix root name) (gvfsSmbLabel name) true true
      else out) out

/-- Network shares stand in front, and within each kind the paths are in byte order. -/
def listedBefore (a b : IndexRootCandidate) : Bool :=
  if a.networkShare != b.networkShare then a.networkShare else decide (a.path < b.path)

def sortCandidates (candidates : List IndexRootCandidate) : List IndexRootCandidate :=
  candidates.mergeSort fun a b => !listedBefore b a

/-- The home of a discovery and its share directory. -/
def configuredHome (config : IndexRootDiscoveryConfig) : Option Bytes :=
  config.homeOverride.or (userHome host)

def configuredGvfsRoot (config : IndexRootDiscoveryConfig) : Option Bytes :=
  config.gvfsRootOverride.or (userGvfsRoot host)

def mountTable (config : IndexRootDiscoveryConfig) : List Mount :=
  (lines (host.fileText config.mountinfoPath)).filterMap readMount

/-- The candidates in the order in which they are found. -/
def collect (config : IndexRootDiscoveryConfig) : List IndexRootCandidate :=
  let home := configuredHome host config
  let out := match home with
    | none => []
    | some home => addCandidate host [] home (lit "Home") false
  addGvfsSambaCandidates host (configuredGvfsRoot host config)
    (addMounts host home (mountTable host config) out)

/-- The home directory keeps its place in front of the sorted others. -/
def discoverWithConfig (config : IndexRootDiscoveryConfig) : List IndexRootCandidate :=
  match collect host config with
  | first :: second :: rest =>
    if (configuredHome host config).any (sameDirectory host first.path) then
      first :: sortCandidates (second :: rest)
    else sortCandidates (first :: second :: rest)
  | few => few

end Discovery
end Such.LinuxIndexRoots
