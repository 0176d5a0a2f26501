import Such.Cli.CliApp.Run
import Such.Cli.IndexWorker.Outcome

/-! What a command line asks of the index roots, and what has become of them when it has ended, over
a runtime of which one call fails. -/
namespace Such.CliApp
open ByteText LexicalPath SearchDialect QueryCommands
open RuntimeClient IndexRootService IndexWorkerLauncher IndexWorker FontSettings

/-- What a typed query asks of the roots. -/
def queryAsks (dialect : PlatformDialect) (query : Bytes) : Option IndexWorkerRequest :=
  let command := parseIndexCommand query dialect
  match command.kind with
  | .addRoot => command.argument.map fun root => { operation := .addRoot, roots := [root] }
  | .replaceRoot => command.argument.map fun root => { operation := .replaceRoots, roots := [root] }
  | .reindex => some { operation := .reindex }
  | _ => none

/-- Commands that have nothing to do with changing the roots. -/
def apartCommands : List Bytes :=
  ["help", "--help", "-h", "version", "--version", "-v", "stop", "shutdown", "--shutdown", "font",
    "snapshot", "roots", "status", "pin", "unpin", "hide", "show"].map lit

/-- The arguments are one folder. -/
def asksFor (operation : IndexWorkerOperation) (arguments : List Bytes) :
    Option IndexWorkerRequest :=
  if arguments.isEmpty then none else some { operation, roots := [joinArgs arguments 0] }

/-- Behind `root`, no folder is named by arguments that are all empty. -/
def rootAsks (operation : IndexWorkerOperation) (arguments : List Bytes) :
    Option IndexWorkerRequest :=
  if (joinArgs arguments 0).isEmpty then none else asksFor operation arguments

/-- A plus sign in front of a folder adds it to the roots. -/
def folderAsks : List Bytes → Option IndexWorkerRequest
  | mark :: folder :: rest =>
    if mark = lit "+" then rootAsks .addRoot (folder :: rest)
    else rootAsks .replaceRoots (mark :: folder :: rest)
  | arguments => rootAsks .replaceRoots arguments

/-- What a command with its arguments asks of the roots. -/
def asks (dialect : PlatformDialect) (firstRaw : Bytes) (arguments : List Bytes) :
    Option IndexWorkerRequest :=
  let first := lower firstRaw
  let typed := joinArgs (firstRaw :: arguments) 0
  if first ∈ apartCommands ∨ (parseFontCommand typed dialect).isMatched then none
  else if first = lit "root" then folderAsks arguments
  else if first ∈ [lit "use", lit "drive"] then asksFor .replaceRoots arguments
  else if first ∈ [lit "add", lit "index"] then asksFor .addRoot arguments
  else if first ∈ [lit "scan", lit "reindex"] then some { operation := .reindex }
  else if first ∈ [lit "find", lit "search"] then queryAsks dialect (joinArgs arguments 0)
  else queryAsks dialect typed

/-- A command that opens no runtime, or leaves the roots of the one it opened. -/
def Keeps {σ : Type} (view : RootView σ) (before : List Bytes) (ended : CliEnd σ) : Prop :=
  ∀ s ∈ ended.service, s.rootsIn view = before

section Roots
variable {W σ : Type} {host : CliHost W σ} {fault : Fault} {view : RootView σ} {start : σ} {w : W}
  {before : List Bytes}

variable (opens : Opens host.toWorkerHost fault view start w) {s : Service σ}
  (same : s.rootsIn view = before)
include opens same

omit same

variable (held : Held host.platform (s.rootsIn view))
  (allowed : PolicyAllows host.platform (s.rootsIn view))
include held allowed

omit opens held allowed

end Roots

end Such.CliApp
