import Such.Cli.CliApp
import Such.Cli.IndexWorker
import Such.Cli.ProcessControl.Stop
import Such.Runtime.DailyIndexRefresh
import Such.Runtime.IndexSnapshot.StateDirectory
import Such.Ui.FontSettings
import Such.Ui.FrontendLease

/-! The command line: one command from its arguments to its exit code and what it prints, and the
interactive session that runs one after the other. -/
namespace Such.CliApp
open ByteText CivilTime LexicalPath FileSystem SearchDialect QueryCommands FontSettings
open RuntimeClient IndexRootService IndexWorkerLauncher IndexWorker IndexSnapshot ProcessControl

scoped instance : LawfulBEq Bytes := inferInstance

/-- How the processes of the system are stopped. -/
inductive ProcessSystem (W : Type) where
  | linux (processes : LinuxProcesses W) (listing : W → List Bytes)
  | apple (processes : AppleProcesses W)
  | other (stop : Bool → W → StopResult × W)

def ProcessSystem.stopSuchProcesses {W : Type} (system : ProcessSystem W) (force : Bool) (w : W) :
    StopResult × W :=
  match system with
  | linux processes listing => processes.stopSuchProcesses force (listing w) w
  | apple processes => processes.stopSuchProcesses force w
  | other stop => stop force w

/-- What a command meets outside its process. A runtime that is destroyed leaves its state behind. -/
structure CliHost (W σ : Type) extends WorkerHost W σ where
  version : Bytes
  stdinIsTerminal : Bool
  typedLines : List Bytes
  processes : ProcessSystem W
  zone : Zone
  now : W → Int
  disk : W → Disk
  setDisk : Disk → W → W
  settings : SettingsEnvironment
  environment : Environment
  systemMessage : W → Bytes
  saveFault : W → Option SaveFault
  walk : W → Walk
  exportFault : W → Option ExportFault
  importFault : W → Option ImportFault
  stamps : W → Nat × Nat
  dailyFile : W → DailyIndexRefresh.StateFile
  persist : Bytes → W → Except Bytes Unit × W
  destroy : σ → W → W

/-- How a command ends. -/
structure CliEnd (σ : Type) where
  code : Int
  out : Bytes := []
  err : Bytes := []
  service : Option (Service σ) := none

/-- `openTrunc` of a POSIX disk. What is written goes to the start of the file for as long as it is
there. -/
def openTruncOn {W : Type} (disk : W → Disk) (setDisk : Disk → W → W) (path : Bytes) (w : W) :
    Option (Stream W × W) :=
  (openWrite (disk w) path).map fun place =>
    ({ write := fun text w =>
        match get (disk w) place with
        | some (.file bytes) =>
          setDisk (put place (.file (text ++ bytes.drop text.length)) (disk w)) w
        | _ => w },
      setDisk (put place (.file []) (disk w)) w)

def line (text : Bytes) : Bytes := text ++ [10]

/-- The arguments from `first` on; an empty one in front leaves no blank behind it. -/
def joinArgs (argv : List Bytes) (first : Nat) : Bytes :=
  (argv.drop first).foldl (fun out value => (if out.isEmpty then out else out ++ [32]) ++ value) []

def helpText (version : Bytes) : Bytes :=
  line (lit "Such " ++ version) ++ ([
    "",
    "  such <query>          search",
    "  such root             list search roots",
    "  such root <folder>    use one root",
    "  such root + <folder>  add a root",
    "  such drive <folder>   choose one search folder",
    "  such scan             rebuild index",
    "  such snapshot export <file.sidx>  export reusable index state",
    "  such snapshot import <file.sidx>  import without full recrawl",
    "  such snapshot info <file.sidx>    inspect snapshot metadata",
    "  such status           show index status",
    "  such pin <file>       pin a file",
    "  such unpin <file>     unpin a file",
    "  such hide <file>      exclude a file",
    "  such show <file>      include a file",
    "  such font [name]      list/set font",
    "  such stop [--force]   stop Such processes",
    "  such version          print version",
    "",
    "Search box: /drive <folder> on Windows, //drive <folder> on Linux",
    "Aliases: roots/use/add, find/search, drive, index, reindex, shutdown"].map lit).flatMap line

section Commands
variable {W σ : Type}

def printRuntimeError (label error : Bytes) (code : Int) (service : Option (Service σ) := none) :
    CliEnd σ :=
  { code := code, err := line (label ++ lit ": " ++ cstr error), service := service }

def usage (text : Bytes) (service : Option (Service σ) := none) : CliEnd σ :=
  { code := 2, err := line (lit "usage: such " ++ text), service := service }

variable (host : CliHost W σ)

def serveCommand (runtime : Loaded σ) : Service σ :=
  { runtime := runtime, dialect := host.dialect, maintenance := { enabled := false } }

def listRoots (s : Service σ) : CliEnd σ :=
  match s.call (Loaded.roots host.library) with
  | (.error e, s) => printRuntimeError (lit "list roots failed") e 6 (some s)
  | (.ok roots, s) => { code := 0, out := roots.flatMap fun root => line (cstr root), service := some s }

/-- Waits for the crawl that an accepted root command starts, and tells how many files there are. -/
def rootCommand (label : Bytes) (outcome : Except Bytes Unit × Service σ) : CliEnd σ :=
  match outcome with
  | (.error e, s) => printRuntimeError label e 6 (some s)
  | (.ok _, s) =>
    let (status, s) := (waitForIdle host.toWorkerHost s).call (Loaded.status host.library)
    { code := 0, out := line (lit "files=" ++ decimal status.indexedFiles), service := some s }

def addRoot (root : Bytes) (s : Service σ) : CliEnd σ :=
  rootCommand host (lit "add root failed") (s.addRoot host.platform host.library root)

def useRoot (root : Bytes) (s : Service σ) : CliEnd σ :=
  rootCommand host (lit "use root failed") (s.replaceRoots host.platform host.library [root])

def mutateFile (verb path : Bytes) (s : Service σ) : CliEnd σ :=
  let (result, s) : Except Bytes Unit × Service σ :=
    if verb = lit "pin" then s.call (Loaded.setPinned host.library path true)
    else if verb = lit "unpin" then s.call (Loaded.setPinned host.library path false)
    else if verb = lit "hide" then s.call (Loaded.setIndexed host.library path false)
    else if verb = lit "show" then s.call (Loaded.setIndexed host.library path true)
    else (.error [], s)
  match result with
  | .error e => printRuntimeError (lit "file update failed") e 8 (some s)
  | .ok _ => { code := 0, out := line (lit "ok"), service := some s }

/-- The slash commands of the search box, which scripts still use. -/
def runLegacyIndexCommand (raw : Bytes) (s : Service σ) : Option (CliEnd σ) :=
  let command := parseIndexCommand raw host.dialect
  if !command.isMatched then none
  else if command.kind = .reindex && command.argument.any (!isShardMode ·) then
    some { code := 2, service := some s }
  else
    match command.kind with
    | .addRoot =>
      match command.argument with
      | none => some (usage (lit "add <folder>") (some s))
      | some root => some (addRoot host root s)
    | .replaceRoot =>
      match command.argument with
      | none => some (usage (lit "use <folder>") (some s))
      | some root => some (useRoot host root s)
    | .reindex =>
      some (rootCommand host (lit "reindex failed") (s.reindexAsync host.platform host.library))
    | .showRoots => some (listRoots host s)
    | .noCommand => none

/-- The first place a content result tells. -/
def locator (item : ResultItem) : Bytes :=
  if !item.logicalName.isEmpty then line (cstr item.logicalName)
  else if item.pageNumber ≠ 0 then line (lit "p. " ++ decimal item.pageNumber.toNat)
  else if item.slideNumber ≠ 0 then line (lit "Slide " ++ decimal item.slideNumber.toNat)
  else if item.sheetNumber ≠ 0 then line (lit "Sheet " ++ decimal item.sheetNumber.toNat)
  else if item.lineNumber ≠ 0 then line (lit "L" ++ decimal item.lineNumber.toNat)
  else if item.byteOffset ≠ 0 then line (lit "@" ++ decimal item.byteOffset.toNat)
  else []

def printResult (item : ResultItem) : Bytes :=
  line (cstr item.filename ++ 9 :: cstr item.path ++ if item.pinned then lit "\tPIN" else []) ++
    if !item.contentMatch then []
    else locator item ++ if item.snippet.isEmpty then [] else line (cstr item.snippet)

def searchCommand (query : Bytes) (now : Int) (s : Service σ) : CliEnd σ :=
  let (outcome, s) := s.call (Loaded.search host.library host.zone host.dialect now query 0)
  if !outcome.error.isEmpty then
    printRuntimeError (lit "search failed") outcome.error 7 (some s)
  else { code := 0, out := outcome.items.flatMap printResult, service := some s }

/-- What a finished rebuild is recorded with; a failure only shows in the error output. -/
def recordScan (w : W) : Bytes × W :=
  match DailyIndexRefresh.load (host.dailyFile w) with
  | .error e =>
    (if e.isEmpty then [] else line (lit "Daily refresh timestamp not loaded: " ++ cstr e), w)
  | .ok daily =>
    match DailyIndexRefresh.recordSuccess host.persist (host.now w) daily w with
    | (.error e, _, w) => (line (lit "Daily refresh timestamp not saved: " ++ cstr e), w)
    | (.ok _, _, w) => ([], w)

def scan (s : Service σ) (w : W) : CliEnd σ × W :=
  match s.reindexAsync host.platform host.library with
  | (.error e, s) => (printRuntimeError (lit "reindex failed") e 6 (some s), w)
  | (.ok _, s) =>
    let (completed, s) := (waitForIdle host.toWorkerHost s).call (Loaded.status host.library)
    if completed.indexing || !completed.lastError.isEmpty then
      (printRuntimeError (lit "reindex completion failed") completed.lastError 8 (some s), w)
    else
      let (err, w) := recordScan host w
      ({ code := 0, out := line (lit "files=" ++ decimal completed.indexedFiles), err := err,
         service := some s }, w)

def printStatus (s : Service σ) : CliEnd σ :=
  let (status, s) := s.call (Loaded.status host.library)
  { code := 0
    out := line (lit "indexing=" ++ if status.indexing then lit "yes" else lit "no") ++
      line (lit "files=" ++ decimal status.indexedFiles) ++
      line (lit "generation=" ++ decimal status.generation) ++
      line (lit "roots=" ++ decimal status.roots.length) ++
      if status.lastError.isEmpty then [] else line (lit "error=" ++ cstr status.lastError)
    service := some s }

def rootOrRoots (argv : List Bytes) (s : Service σ) : CliEnd σ :=
  if argv.length = 2 then listRoots host s
  else
    let add := 4 ≤ argv.length && argv[2]? = some (lit "+")
    let rootPath := joinArgs argv (if add then 3 else 2)
    if rootPath.isEmpty then usage (lit "root [ + ] <folder>") (some s)
    else if add then addRoot host rootPath s
    else useRoot host rootPath s

/-- A command behind a loaded runtime; `first` is its name in small letters. -/
def runOverRuntime (argv : List Bytes) (first : Bytes) (s : Service σ) (w : W) : CliEnd σ × W :=
  if first = lit "root" then (rootOrRoots host argv s, w)
  else if first = lit "roots" then (listRoots host s, w)
  else if first ∈ [lit "use", lit "drive"] then
    if argv.length < 3 then (usage (lit "use <folder>") (some s), w)
    else (useRoot host (joinArgs argv 2) s, w)
  else if first ∈ [lit "add", lit "index"] then
    if argv.length < 3 then (usage (lit "add <folder>") (some s), w)
    else (addRoot host (joinArgs argv 2) s, w)
  else if first ∈ [lit "scan", lit "reindex"] then scan host s w
  else if first = lit "status" then (printStatus host s, w)
  else if first ∈ [lit "pin", lit "unpin", lit "hide", lit "show"] then
    if argv.length < 3 then (usage (cstr first ++ lit " <file>") (some s), w)
    else (mutateFile host first (joinArgs argv 2) s, w)
  else
    let query := joinArgs argv (if first ∈ [lit "find", lit "search"] then 2 else 1)
    if query.isEmpty then (usage (lit "<query>") (some s), w)
    else (((runLegacyIndexCommand host query s).getD (searchCommand host query (host.now w) s)), w)

def stop (arguments : List Bytes) (w : W) : CliEnd σ × W :=
  if arguments.any fun argument => !([lit "--force", lit "-f"].contains (lower argument)) then
    (usage (lit "stop [--force]"), w)
  else
    let (result, w) := host.processes.stopSuchProcesses (!arguments.isEmpty) w
    if !result.error.isEmpty then (printRuntimeError (lit "stop failed") result.error 9, w)
    else if result.matched = 0 then ({ code := 0, out := line (lit "No running Such processes.") }, w)
    else
      ({ code := if result.failed = 0 then 0 else 9
         out := line (lit "stopped=" ++ decimal result.stopped ++
          (if result.forced = 0 then [] else lit " forced=" ++ decimal result.forced) ++
          if result.failed = 0 then [] else lit " failed=" ++ decimal result.failed) }, w)

def listFonts : CliEnd σ where
  code := 0
  out := (builtinFontOptions.flatMap fun option => line (option.aliasName ++ 9 :: option.family)) ++
    line (lit "system\tsystem default")

def saveFont (family : Bytes) (w : W) : CliEnd σ × W :=
  let path := settingsPath host.settings
  let (result, disk) :=
    if family.isEmpty then
      clearFontPreference (host.saveFault w) (host.systemMessage w) path (host.disk w)
    else saveFontPreference (host.saveFault w) (host.systemMessage w) path family (host.disk w)
  let w := host.setDisk disk w
  match result with
  | .error e => (printRuntimeError (lit "font failed") e 4, w)
  | .ok _ =>
    ({ code := 0, out := line (lit "font=" ++ if family.isEmpty then lit "system" else cstr family) }, w)

def font (argv : List Bytes) (w : W) : CliEnd σ × W :=
  if argv.length = 2 then (listFonts, w)
  else
    let requested := joinArgs argv 2
    if lower requested = lit "system" then saveFont host [] w
    else
      match builtinFontOptions.find? fun option =>
          lower option.aliasName == lower requested || lower option.family == lower requested with
      | some option => saveFont host option.family w
      | none => ({ code := 2, err := line (lit "unknown font: " ++ cstr requested) }, w)

def legacyFont (raw : Bytes) (w : W) : Option (CliEnd σ × W) :=
  let command := parseFontCommand raw host.dialect
  if !command.isMatched then none
  else if command.showPicker then some (listFonts, w)
  else command.requestedFamily.map fun family => saveFont host family w

def failureText (w : W) : Failure → Bytes
  | .plain text => text
  | .coded text => text ++ host.systemMessage w

def snapshotLines (path : Bytes) (generation files : Nat) (rest : Bytes) : Bytes :=
  line (lit "snapshot=" ++ cstr path) ++ line (lit "generation=" ++ decimal generation) ++
    line (lit "files=" ++ decimal files) ++ rest

def snapshotInfo (path : Bytes) (w : W) : CliEnd σ :=
  match inspectIndexSnapshot (host.disk w) path with
  | .error failure => printRuntimeError (lit "snapshot inspect failed") (failureText host w failure) 10
  | .ok info =>
    { code := 0
      out := line (lit "format=" ++ decimal info.formatVersion) ++
        line (lit "generation=" ++ decimal info.generation.toNat) ++
        line (lit "files=" ++ decimal info.fileCount) ++
        line (lit "bytes=" ++ decimal info.payloadBytes) ++
        line (lit "roots=" ++ decimal info.roots.length) ++
        info.roots.flatMap fun root => line (lit "root=" ++ cstr root) }

/-- The roots and the generation of an idle runtime. The runtime is given up before the export. -/
def exportedState (runtime : Loaded σ) : Except Bytes (List Bytes × Nat) × Loaded σ :=
  let (status, runtime) := runtime.status host.library
  let (status, runtime) :=
    if status.indexing then
      Loaded.status host.library { runtime with runtime := host.waitForIdle runtime.runtime }
    else (status, runtime)
  match runtime.roots host.library with
  | (.error e, runtime) => (.error e, runtime)
  | (.ok roots, runtime) => (.ok (roots, status.generation), runtime)

def snapshotExport (stateDirectory path : Bytes) (w : W) : CliEnd σ × W :=
  match ({} : Client σ).ensureReady host.library host.look w with
  | (.error failed, w) =>
    (printRuntimeError (lit "snapshot runtime load failed")
      (runtimeError (failed.impl host.library)) 5, w)
  | (.ok runtime, w) =>
    let (state, runtime) := exportedState host runtime
    let service := some (serveCommand host runtime)
    let w := host.destroy runtime.runtime w
    match state with
    | .error e => (printRuntimeError (lit "snapshot root query failed") e 6 service, w)
    | .ok (roots, generation) =>
      match exportIndexSnapshot (host.exportFault w) (host.walk w) (host.disk w) stateDirectory path
          roots (UInt64.ofNat generation) with
      | .error (failure, disk) =>
        (printRuntimeError (lit "snapshot export failed") (failureText host w failure) 10 service,
          host.setDisk disk w)
      | .ok (info, disk) =>
        ({ code := 0
           out := snapshotLines path info.generation.toNat info.fileCount
            (line (lit "bytes=" ++ decimal info.payloadBytes))
           service := service },
          host.setDisk disk w)

/-- Whether the runtime has the roots of the snapshot, and how the command ends with it. -/
def verifyImport (path : Bytes) (info : IndexSnapshotInfo) (runtime : Loaded σ) : CliEnd σ :=
  match runtime.roots host.library with
  | (.error e, runtime) =>
    printRuntimeError (lit "imported snapshot root verification failed") e 6
      (some (serveCommand host runtime))
  | (.ok roots, runtime) =>
    if roots.length ≠ info.roots.length then
      { code := 10, err := line (lit "snapshot import verification failed: root count mismatch")
        service := some (serveCommand host runtime) }
    else if (roots.zip info.roots).any fun pair =>
        lexicallyNormal .posix pair.1 ≠ lexicallyNormal .posix pair.2 then
      { code := 10, err := line (lit "snapshot import verification failed: root mismatch")
        service := some (serveCommand host runtime) }
    else
      let (status, runtime) := runtime.status host.library
      { code := 0
        out := snapshotLines path status.generation status.indexedFiles
          (line (lit "roots=" ++ decimal roots.length))
        service := some (serveCommand host runtime) }

/-- The runtime of a command is destroyed at its end. -/
def destroyed (ended : CliEnd σ) (w : W) : CliEnd σ × W :=
  (ended, match ended.service with
    | none => w
    | some s => host.destroy s.runtime.runtime w)

def snapshotImport (stateDirectory path : Bytes) (w : W) : CliEnd σ × W :=
  match importIndexSnapshot (host.importFault w) (host.stamps w) (host.disk w) path stateDirectory with
  | .error (failure, disk) =>
    (printRuntimeError (lit "snapshot import failed") (failureText host w failure) 10,
      host.setDisk disk w)
  | .ok (info, disk) =>
    match ({} : Client σ).ensureReady host.library host.look (host.setDisk disk w) with
    | (.error failed, w) =>
      (printRuntimeError (lit "imported snapshot runtime load failed")
        (runtimeError (failed.impl host.library)) 5, w)
    | (.ok runtime, w) => destroyed host (verifyImport host path info runtime) w

def snapshotUsage : CliEnd σ := usage (lit "snapshot <export|import|info> <file.sidx>")

def snapshot (arguments : List Bytes) (w : W) : CliEnd σ × W :=
  match arguments with
  | [action, path] =>
    if lower action = lit "info" then (snapshotInfo host path w, w)
    else
      let unresolved (e : Bytes) : CliEnd σ × W :=
        (printRuntimeError (lit "snapshot state resolution failed") e 10, w)
      match indexStateDirectory host.environment with
      | .error failure => unresolved (failureText host w failure)
      | .ok [] => unresolved []
      | .ok (b :: rest) =>
        if lower action = lit "export" then snapshotExport host (b :: rest) path w
        else if lower action = lit "import" then snapshotImport host (b :: rest) path w
        else (snapshotUsage, w)
  | _ => (snapshotUsage, w)

def indexWorker (argv : List Bytes) (w : W) : CliEnd σ × W :=
  let (ended, w) := runIndexWorker host.toWorkerHost argv w
  destroyed host
    { code := ended.code
      err := if ended.message.isEmpty then [] else line (cstr ended.message)
      service := ended.service } w

/-- A command with a name. The lease of a command line is always granted. -/
def runCommand (argv : List Bytes) (firstRaw : Bytes) (arguments : List Bytes) (w : W) :
    CliEnd σ × W :=
  let first := lower firstRaw
  if first = lit "--index-worker" then indexWorker host argv w
  else if first ∈ [lit "help", lit "--help", lit "-h"] then
    ({ code := 0, out := helpText host.version }, w)
  else if first ∈ [lit "version", lit "--version", lit "-v"] then
    ({ code := 0, out := line host.version }, w)
  else if first ∈ [lit "stop", lit "shutdown", lit "--shutdown"] then stop host arguments w
  else if first = lit "font" then font host argv w
  else
    match legacyFont host (joinArgs argv 1) w with
    | some ended => ended
    | none =>
      if first = lit "snapshot" then snapshot host arguments w
      else
        match ({} : Client σ).ensureReady host.library host.look w with
        | (.error failed, w) =>
          (printRuntimeError (lit "runtime load failed") (runtimeError (failed.impl host.library)) 5, w)
        | (.ok runtime, w) =>
          let (ended, w) := runOverRuntime host argv first (serveCommand host runtime) w
          destroyed host ended w

def prompt : Bytes := lit "\nsuch> "

/-- The typed lines as commands, each a run of its own, up to the end of the input or a wish to
leave. -/
def runInteractive : List Bytes → W → CliEnd σ × W
  | [], w => ({ code := 0, out := prompt ++ [10] }, w)
  | typed :: rest, w =>
    match splitInteractiveCommand typed with
    | [] =>
      let (later, w) := runInteractive rest w
      ({ later with out := prompt ++ later.out }, w)
    | command :: arguments =>
      if lower command ∈ [lit "exit", lit "quit"] then ({ code := 0, out := prompt }, w)
      else
        let (ended, w) := runCommand host (lit "SuchCLI" :: cstr command :: arguments.map cstr)
          (cstr command) (arguments.map cstr) w
        let (later, w) := runInteractive rest w
        let note := if ended.code = 0 then []
          else line (lit "command exited with code " ++ decimalInt ended.code)
        ({ later with
            out := prompt ++ ended.out ++ later.out
            err := ended.err ++ note ++ later.err }, w)

def run (argv : List Bytes) (w : W) : CliEnd σ × W :=
  match argv with
  | _ :: first :: arguments => runCommand host argv first arguments w
  | _ =>
    if host.stdinIsTerminal then
      let (ended, w) := runInteractive host host.typedLines w
      ({ ended with out := helpText host.version ++ ended.out }, w)
    else ({ code := 0, out := helpText host.version }, w)

end Commands
end Such.CliApp
