import Such.Runtime.IndexRootService.Termination
import Such.Runtime.IndexWorkerLauncher.Arguments
import Such.Runtime.RuntimeClient.Lifecycle

/-! The process that carries an index request out: one root operation, the crawl it starts and
the policy maintenance behind it, each with an exit code of its own. -/
namespace Such.IndexWorker
open ByteText LexicalPath IndexPathPolicy RuntimeClient IndexRootService IndexWorkerLauncher
open SearchDialect

/-- An open output stream, as what a text written to it makes of the world. -/
structure Stream (W : Type) where
  write : Bytes → W → W

/-- What a worker meets outside its process. A runtime crawls on its own between two calls, and
`openTrunc` opens a file to be written from its start. -/
structure WorkerHost (W σ : Type) where
  platform : IndexPathPolicy.Platform
  dialect : PlatformDialect
  library : Library σ
  look : W → Installation σ × W
  waitForIdle : σ → σ
  crawl : Nat → σ → σ
  around : Nat → Service.Surroundings
  openTrunc : Bytes → W → Option (Stream W × W)

/-- How a worker ends: its exit code, the line it prints and the service it leaves, if it got as
far as having one. -/
structure WorkerEnd (σ : Type) where
  code : Int
  message : Bytes := []
  service : Option (Service σ) := none

def maintenancePollLimit : Nat := 4096

section Worker
variable {W σ : Type} (host : WorkerHost W σ)

/-- Empties the file that the options name. Without a name, or where it does not open, nothing is
written later either. -/
def openDiagnostic (options : WorkerOptions) (w : W) : Option (Stream W) × W :=
  if options.diagnosticPath.isEmpty then (none, w)
  else
    match host.openTrunc options.diagnosticPath w with
    | none => (none, w)
    | some (diagnostic, w) => (some diagnostic, w)

def fail (diagnostic : Option (Stream W)) (code : Int) (message : Bytes)
    (service : Option (Service σ)) (w : W) : WorkerEnd σ × W :=
  ({ code := code, message := message, service := service },
    diagnostic.elim w fun stream => stream.write (message ++ [10]) w)

/-- The root operation of a request. -/
def perform (operation : IndexWorkerOperation) (roots : List Bytes) (s : Service σ) :
    Except Bytes Unit × Service σ :=
  match operation with
  | .reindex => s.reindexAsync host.platform host.library
  | .addRoot => s.addRoot host.platform host.library (roots.headD [])
  | .replaceRoots => s.replaceRoots host.platform host.library roots

def waitForIdle (s : Service σ) : Service σ :=
  { s with runtime := { s.runtime with runtime := host.waitForIdle s.runtime.runtime } }

/-- The runtime before the numbered poll. -/
def crawled (poll : Nat) (runtime : Loaded σ) : Loaded σ :=
  { runtime with runtime := host.crawl poll runtime.runtime }

/-- One batch of maintenance, and a wait where it started the runtime crawling. -/
def pollMaintenance (poll : Nat) (s : Service σ) : Service σ :=
  let s := { s with runtime := crawled host poll s.runtime }
  let s := s.scrubOneBatch host.platform host.library (host.around poll)
  let (status, s) := s.call (Loaded.status host.library)
  if status.indexing then waitForIdle host s else s

/-- The polls from the numbered one on, while maintenance is active. -/
def drain : Nat → Nat → Service σ → Service σ
  | 0, _, s => s
  | left + 1, poll, s =>
    if !s.maintenance.pending then s else drain left (poll + 1) (pollMaintenance host poll s)

/-- What follows on an operation that was accepted. -/
def finish (diagnostic : Option (Stream W)) (s : Service σ) (w : W) : WorkerEnd σ × W :=
  let (crawl, s) := (waitForIdle host s).call (Loaded.status host.library)
  if crawl.indexing || !crawl.lastError.isEmpty then
    fail diagnostic 8 (lit "Index crawl failed: " ++ crawl.lastError) (some s) w
  else
    let s := drain host maintenancePollLimit 0 s
    if s.maintenance.pending then
      fail diagnostic 7 (lit "Index folder policy maintenance did not finish.") (some s) w
    else
      let (final, s) := s.call (Loaded.status host.library)
      if final.indexing || !final.lastError.isEmpty then
        fail diagnostic 8
          (lit "Index worker did not reach a readable idle state: " ++ final.lastError) (some s) w
      else ({ code := 0, service := some s }, w)

/-- The service of a worker runs its maintenance itself. -/
def serve (runtime : Loaded σ) : Service σ := { runtime := runtime, dialect := host.dialect }

def carryOut (operation : IndexWorkerOperation) (roots : List Bytes)
    (diagnostic : Option (Stream W)) (s : Service σ) (w : W) : WorkerEnd σ × W :=
  match perform host operation roots s with
  | (.error e, s) => fail diagnostic 6 (lit "Index request failed: " ++ e) (some s) w
  | (.ok (), s) => finish host diagnostic s w

def runIndexWorker (argv : List Bytes) (w : W) : WorkerEnd σ × W :=
  match readWorker argv with
  | .error code => ({ code := code }, w)
  | .ok (operation, options) =>
    let (diagnostic, w) := openDiagnostic host options w
    match ({} : Client σ).ensureReady host.library host.look w with
    | (.error failed, w) =>
      fail diagnostic 5 (lit "Index load failed: " ++ runtimeError (failed.impl host.library)) none w
    | (.ok runtime, w) => carryOut host operation options.roots diagnostic (serve host runtime) w

end Worker
end Such.IndexWorker
