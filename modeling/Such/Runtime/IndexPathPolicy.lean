import Such.Base.LexicalPath

/-! Which roots the product indexes, and what it excludes below them. Planning is
bounded: no selected storage is walked. The operating system's answers are taken as
they are while one plan is made. -/
namespace Such.IndexPathPolicy
open ByteText LexicalPath

inductive IndexPolicyOverride where
  | none
  | explicitCurrentUserAppData
deriving DecidableEq, Repr

structure IndexPathPolicyPlan where
  rootAllowed : Bool := true
  rejectionReason : Bytes := []
  exclusions : List Bytes := []
deriving DecidableEq, Repr

structure IndexPolicyRootRequest where
  root : Bytes
  overrideMode : IndexPolicyOverride := .none
deriving DecidableEq, Repr

inductive KnownFolder where
  | programData
  | programFiles
  | programFilesX86
  | profile
  | roamingAppData
  | localAppData
  | localAppDataLow
  | userProfiles
deriving DecidableEq, Repr

/-- What the policy asks of Windows. Listings hold what a directory iteration yields
before it ends or fails, tests are false where they fail. -/
structure WindowsHost where
  /-- Whether `MultiByteToWideChar` accepts a text as UTF-8. -/
  decodes : Bytes → Bool
  decodes_cstr : ∀ v, decodes v = true → decodes (cstr v) = true
  /-- The invariant lower-case mapping, `none` where it fails. -/
  lowercase : Bytes → Option Bytes
  absolute : Bytes → Option Bytes
  /-- Empty where the lookup fails. -/
  knownFolder : KnownFolder → Bytes
  moduleFile : Option Bytes
  isRegularFile : Bytes → Bool
  isDirectory : Bytes → Bool
  children : Bytes → List Bytes
  isReparsePoint : Bytes → Bool

inductive Platform where
  | posix (absolute : Bytes → Option Bytes)
  | windows (host : WindowsHost)

def Platform.convention : Platform → Convention
  | .posix _ => .posix
  | .windows _ => .windows

def Platform.absolute : Platform → Bytes → Option Bytes
  | .posix absolute => absolute
  | .windows host => host.absolute

/-- Windows compares paths without regard to case. -/
def Platform.fold : Platform → Bytes → Bytes
  | .posix _, text => text
  | .windows host, text => if text.isEmpty then text else (host.lowercase text).getD text

def componentEqualAscii (a b : Bytes) : Bool := lower a == lower b

def isDefaultNoiseDirectoryName (name : Bytes) : Bool :=
  componentEqualAscii name (lit "node_modules") || componentEqualAscii name (lit ".git") ||
    componentEqualAscii name (lit "__pycache__")

def componentEqualPlatform : Convention → Bytes → Bytes → Bool
  | .posix, a, b => a == b
  | .windows, a, b => componentEqualAscii a b

/-- The scan behind the noise prefix: `done` ends in a separator or is empty, `current`
is the component under way. -/
def noisePrefixFrom (same : Bytes → Bool) (done current : Bytes) : Bytes → Option Bytes
  | [] => if same current then some (done ++ current) else none
  | b :: rest =>
    if isSeparator .windows b then
      if same current then some (done ++ current)
      else noisePrefixFrom same (done ++ current ++ [b]) [] rest
    else noisePrefixFrom same done (current ++ [b]) rest

/-- The path up to its first component of that name. Both slashes separate, on either
platform. -/
def defaultNoiseDirectoryPrefix (c : Convention) (path noiseName : Bytes) : Option Bytes :=
  if !isDefaultNoiseDirectoryName noiseName then none
  else noisePrefixFrom (componentEqualPlatform c · noiseName) [] [] path

def splitWindowsComponents (input : Bytes) : List Bytes := fields (isSeparator .windows) input

def hasSuchInstallComponentChain : List Bytes → Bool
  | a :: b :: c :: d :: rest =>
    (componentEqualAscii a (lit "AppData") && componentEqualAscii b (lit "Local") &&
        componentEqualAscii c (lit "Programs") && componentEqualAscii d (lit "Such")) ||
      hasSuchInstallComponentChain (b :: c :: d :: rest)
  | _ => false

def isWindowsSuchInstallPath (path : Bytes) : Bool :=
  hasSuchInstallComponentChain (splitWindowsComponents path)

def protectedNames : List Bytes := [
  "Windows", "Windows.old", "Program Files", "Program Files (x86)", "Program Files (Arm)",
  "ProgramData", "System Volume Information", "$Recycle.Bin", "Recovery", "PerfLogs",
  "$WinREAgent", "$Windows.~BT", "$Windows.~WS"
].map lit

/-- Only C: is taken for the fixed drive of the operating system. -/
def isWindowsProtectedIndexPath (path : Bytes) : Bool :=
  let parts := splitWindowsComponents path
  parts.any isDefaultNoiseDirectoryName || parts.any (componentEqualAscii · (lit "AppData")) ||
    match parts with
    | drive :: first :: _ =>
      componentEqualAscii drive (lit "C:") && protectedNames.any (componentEqualAscii first)
    | _ => false

def isWindowsManualIndexAlias (text : Bytes) : Bool :=
  componentEqualAscii text (lit "%APPDATA%") || componentEqualAscii text (lit "%LOCALAPPDATA%")

section Paths
variable (platform : Platform)

def pathKey (path : Bytes) : Bytes :=
  platform.fold (stripTrailing (genericText platform.convention
    (lexicallyNormal platform.convention path)))

def keyIsWithin (candidate parent : Bytes) : Bool :=
  if candidate = parent then true
  else if parent.isEmpty || candidate.length ≤ parent.length then false
  else if !startsWith candidate parent then false
  else parent.getLast? = some 47 || candidate[parent.length]? = some 47

def pathIsWithin (candidate parent : Bytes) : Bool :=
  keyIsWithin (pathKey platform candidate) (pathKey platform parent)

def normalizedAbsolute (input : Bytes) : Bytes :=
  lexicallyNormal platform.convention ((platform.absolute input).getD input)

/-- The paths gathered so far, and the keys they were gathered under. -/
structure Gathered where
  out : List Bytes := []
  seen : List Bytes := []

def appendUnique (acc : Gathered) (value : Bytes) : Gathered :=
  let normalized := normalizedAbsolute platform value
  let key := pathKey platform normalized
  if key.isEmpty || acc.seen.contains key then acc
  else ⟨acc.out ++ [normalized], acc.seen ++ [key]⟩

end Paths

section Windows
variable (host : WindowsHost)

/-- The directory of the running copy when it was installed, else the per-user default. -/
def windowsSuchInstallRoot : Bytes :=
  let installed := host.moduleFile.bind fun moduleFile =>
    let directory := parentPath .windows moduleFile
    let directory := if componentEqualAscii (filename .windows directory) (lit "cli") then
      parentPath .windows directory else directory
    if host.isRegularFile (joinName .windows directory (lit "unins000.exe")) then
      some (normalizedAbsolute (.windows host) directory)
    else none
  match installed with
  | some directory => directory
  | none =>
    let localData := host.knownFolder .localAppData
    if localData.isEmpty then []
    else normalizedAbsolute (.windows host)
      (joinName .windows (joinName .windows localData (lit "Programs")) (lit "Such"))

def isCurrentUserSuchInstallPath (path : Bytes) : Bool :=
  let installRoot := windowsSuchInstallRoot host
  !installRoot.isEmpty &&
    pathIsWithin (.windows host) (normalizedAbsolute (.windows host) path) installRoot

/-- A junction may lead back to its own parent, so it is never excluded. -/
def appendChildrenExcept (acc : Gathered) (parent allowedChild : Bytes) : Gathered :=
  let allowedKey := pathKey (.windows host) (normalizedAbsolute (.windows host) allowedChild)
  (host.children parent).foldl (fun acc child =>
    if host.isReparsePoint child then acc
    else
      let candidate := normalizedAbsolute (.windows host) child
      if pathKey (.windows host) candidate = allowedKey then acc
      else appendUnique (.windows host) acc candidate) acc

def appendIfInsideScope (scope : Bytes) (acc : Gathered) (candidate : Bytes) : Gathered :=
  if !candidate.isEmpty &&
      pathIsWithin (.windows host) (normalizedAbsolute (.windows host) candidate) scope then
    appendUnique (.windows host) acc candidate
  else acc

def systemFolders : List Bytes := [
  "C:\\Windows", "C:\\Windows.old", "C:\\Program Files", "C:\\Program Files (x86)",
  "C:\\Program Files (Arm)", "C:\\ProgramData", "C:\\System Volume Information",
  "C:\\$Recycle.Bin", "C:\\Recovery", "C:\\PerfLogs", "C:\\$WinREAgent", "C:\\$Windows.~BT",
  "C:\\$Windows.~WS"
].map lit

/-- One child of the profiles directory: another user's AppData tree is excluded. -/
def appendProfile (scope : Bytes) (acc : Gathered) (child : Bytes) : Gathered :=
  if !host.isDirectory child then acc
  else
    let profile := normalizedAbsolute (.windows host) child
    let current := host.knownFolder .profile
    if !current.isEmpty && pathKey (.windows host) profile ==
        pathKey (.windows host) (normalizedAbsolute (.windows host) current) then acc
    else
      let appData := joinName .windows profile (lit "AppData")
      if host.isDirectory appData then appendIfInsideScope host scope acc appData else acc

/-- Up from the install root to the exclusion, taking every sibling of the way. A parent
is shorter than its child, so the length of the path is fuel enough. -/
def splitAround (excluded : Bytes) : Nat → Gathered → Bytes → Gathered
  | 0, acc, _ => acc
  | fuel + 1, acc, cursor =>
    if pathKey (.windows host) cursor = pathKey (.windows host) excluded then acc
    else
      let parent := parentPath .windows cursor
      if parent.isEmpty || pathKey (.windows host) parent == pathKey (.windows host) cursor then acc
      else splitAround excluded fuel (appendChildrenExcept host acc parent cursor) parent

/-- Exclusions are parent-dominant, so one that covers the install root is replaced by
what lies beside the way down to it. -/
def preserveInstallRoot (original : List Bytes) : List Bytes :=
  let installRoot := windowsSuchInstallRoot host
  if installRoot.isEmpty then original
  else
    (original.foldl (fun acc excluded =>
      if pathIsWithin (.windows host) excluded installRoot then acc
      else if !pathIsWithin (.windows host) installRoot excluded then
        appendUnique (.windows host) acc excluded
      else splitAround host excluded (installRoot.length + 1) acc installRoot) {}).out

def windowsFixedExclusions (scopeRoot : Bytes) : List Bytes :=
  let scope := normalizedAbsolute (.windows host) scopeRoot
  let localData := host.knownFolder .localAppData
  let inside := appendIfInsideScope host scope
  let acc := ([KnownFolder.programData, .programFiles, .programFilesX86].map host.knownFolder ++
    systemFolders ++ [host.knownFolder .roamingAppData, host.knownFolder .localAppDataLow]).foldl
      inside {}
  let acc :=
    if !localData.isEmpty && pathIsWithin (.windows host) localData scope then
      let programs := normalizedAbsolute (.windows host) (joinName .windows localData (lit "Programs"))
      let acc := appendChildrenExcept host acc localData programs
      if host.isDirectory programs then
        appendChildrenExcept host acc programs (windowsSuchInstallRoot host)
      else acc
    else acc
  let profiles := host.knownFolder .userProfiles
  let profiles := if profiles.isEmpty then lit "C:\\Users" else profiles
  let acc :=
    if pathIsWithin (.windows host) profiles scope || pathIsWithin (.windows host) scope profiles then
      (host.children profiles).foldl (appendProfile host scope) acc
    else acc
  preserveInstallRoot host acc.out

end Windows

section Planning
variable (platform : Platform)

def resolveWindowsManualIndexAlias (text : Bytes) : Option Bytes :=
  match platform with
  | .posix _ => none
  | .windows host =>
    let roaming := host.knownFolder .roamingAppData
    let localData := host.knownFolder .localAppData
    if componentEqualAscii text (lit "%APPDATA%") && !roaming.isEmpty then
      some (normalizedAbsolute platform roaming)
    else if componentEqualAscii text (lit "%LOCALAPPDATA%") && !localData.isEmpty then
      some (normalizedAbsolute platform localData)
    else none

def isCurrentUserManualAppdataRoot (root : Bytes) : Bool :=
  match platform with
  | .posix _ => false
  | .windows host =>
    [host.knownFolder .roamingAppData, host.knownFolder .localAppData].any fun folder =>
      !folder.isEmpty && pathKey platform (normalizedAbsolute platform root) ==
        pathKey platform (normalizedAbsolute platform folder)

def rejected (reason : Bytes) : IndexPathPolicyPlan := { rootAllowed := false, rejectionReason := reason }

/-- The fixed exclusions below the root, up to the first one that covers it. -/
def appendFixed (host : WindowsHost) (root : Bytes) : Gathered → List Bytes → Except Gathered Gathered
  | acc, [] => .ok acc
  | acc, excluded :: rest =>
    if pathIsWithin (.windows host) root excluded then .error acc
    else appendFixed host root
      (if pathIsWithin (.windows host) excluded root then appendUnique (.windows host) acc excluded
        else acc) rest

/-- The Windows part of a plan: protected trees, then the fixed exclusions in scope. -/
def planWindows (host : WindowsHost) (root : Bytes) (overrideMode : IndexPolicyOverride) :
    IndexPathPolicyPlan :=
  let manual := overrideMode == .explicitCurrentUserAppData
  let explicitAppData := manual && isCurrentUserManualAppdataRoot (.windows host) root
  if manual && !explicitAppData then
    rejected (lit "Explicit AppData override is valid only for the current user's AppData known folders")
  else if !explicitAppData && !isCurrentUserSuchInstallPath host root &&
      isWindowsProtectedIndexPath root then
    rejected (lit "Such does not index Windows/AppData system trees by default")
  else
    let fixed := windowsFixedExclusions host root
    let fixed := if explicitAppData then
      fixed.filter fun excluded =>
        !(pathIsWithin (.windows host) root excluded || pathIsWithin (.windows host) excluded root)
      else fixed
    match appendFixed host root {} fixed with
    | .error acc => { rejected (lit "Such does not index Windows/AppData system trees by default") with
        exclusions := acc.out }
    | .ok acc => { exclusions := acc.out }

/-- The plan for one root without recursive discovery. -/
def planDefaultIndexPolicy (root : Bytes) (overrideMode : IndexPolicyOverride) : IndexPathPolicyPlan :=
  if root.isEmpty then rejected (lit "Search root is empty")
  else
    let normalizedRoot := normalizedAbsolute platform root
    let rootName := filename platform.convention normalizedRoot
    let noise := rejected
      (lit "Such does not index dependency/cache directories by default: " ++ rootName)
    match platform with
    | .posix _ => if isDefaultNoiseDirectoryName rootName then noise else {}
    | .windows host =>
      -- The installed subtree wins over every other rule.
      if isCurrentUserSuchInstallPath host normalizedRoot then {}
      else if isDefaultNoiseDirectoryName rootName then noise
      else planWindows host normalizedRoot overrideMode

/-- The plans of the roots joined, up to the first root that is rejected. -/
def combinePlans : Gathered → List IndexPolicyRootRequest → Except IndexPathPolicyPlan Gathered
  | combined, [] => .ok combined
  | combined, request :: rest =>
    let item := planDefaultIndexPolicy platform request.root request.overrideMode
    if !item.rootAllowed then .error item
    else combinePlans (item.exclusions.foldl (appendUnique platform) combined) rest

def explicitAppDataRoots (roots : List IndexPolicyRootRequest) : List Bytes :=
  (roots.filter fun request => request.overrideMode == .explicitCurrentUserAppData &&
    isCurrentUserManualAppdataRoot platform request.root).map
      fun request => normalizedAbsolute platform request.root

/-- An explicit AppData root is an exception to the exclusions of every other root. -/
def planDefaultIndexPolicySet (roots : List IndexPolicyRootRequest) : IndexPathPolicyPlan :=
  match combinePlans platform {} roots with
  | .error item => item
  | .ok combined =>
    let allowed := explicitAppDataRoots platform roots
    { exclusions := combined.out.filter fun excluded => !allowed.any fun root =>
        pathIsWithin platform excluded root || pathIsWithin platform root excluded }

end Planning
end Such.IndexPathPolicy
