import Such.Ui.SearchDialect

/-! The sibling process that owns every crawl: its request, its launch and the poll of
the tracked ticket. What the system answers is a parameter of each call. -/
namespace Such.IndexWorkerLauncher
open ByteText SearchDialect

inductive IndexWorkerOperation where
  | reindex
  | addRoot
  | replaceRoots
deriving DecidableEq, Repr

/-- A shard count of -1 keeps the saved choice, 0 selects automatic sizing. -/
structure IndexWorkerRequest where
  operation : IndexWorkerOperation := .reindex
  roots : List Bytes := []
  shardCount : Int := -1
deriving DecidableEq, Repr

inductive IndexWorkerPoll where
  | running
  | succeeded
  | failed
deriving DecidableEq, Repr

structure IndexWorkerTicket where
  nativeProcess : Nat := 0
  diagnosticPath : Bytes := []
deriving DecidableEq, Repr

def IndexWorkerTicket.valid (ticket : IndexWorkerTicket) : Bool := ticket.nativeProcess != 0

/-- What a launch finds: the executable's directory, the command-line tool beside it,
the diagnostic file it may use and the process it starts. A started process is never 0. -/
structure LaunchSite where
  directoryKnown : Bool := true
  cliPresent : Bool := true
  diagnosticPath : Bytes := []
  process : Option { handle : Nat // handle ≠ 0 }
deriving DecidableEq, Repr

/-- The answer of a wait that does not block. -/
inductive Waited where
  | running
  | exited (code : Int)
  | signaled (signal : Int)
  | refused (errno : Int)
  | unknown
deriving DecidableEq, Repr

def validateWorkerRequest (request : IndexWorkerRequest) : Except Bytes Unit :=
  if request.shardCount ∉ ([-1, 0, 1, 2, 4, 8, 16] : List Int) then
    .error (lit "index shards must be auto, 1, 2, 4, 8 or 16")
  else if request.operation = .addRoot ∧ request.roots.length ≠ 1 then
    .error (lit "index worker add requires exactly one root")
  else if request.operation = .reindex ∧ ¬ request.roots.isEmpty then
    .error (lit "index worker reindex does not accept roots")
  else .ok ()

def closeIndexWorkerTicket (ticket : IndexWorkerTicket) : IndexWorkerTicket :=
  { ticket with nativeProcess := 0 }

/-- Only Windows keeps a diagnostic file for the worker. -/
def launchDiagnostic (platform : PlatformDialect) (site : LaunchSite) (kept : Bytes) : Bytes :=
  match platform with
  | .windows => site.diagnosticPath
  | .unixLike => kept

def startError : PlatformDialect → Bytes
  | .windows => lit "could not start the Such index worker"
  | .unixLike => lit "could not fork the Such index worker"

/-- A failed launch leaves a closed ticket. -/
def launchIndexWorkerTracked (platform : PlatformDialect) (site : LaunchSite)
    (request : IndexWorkerRequest) (ticket : IndexWorkerTicket) :
    Except Bytes Unit × IndexWorkerTicket :=
  let ticket := closeIndexWorkerTicket ticket
  match validateWorkerRequest request with
  | .error e => (.error e, ticket)
  | .ok () =>
    if !site.directoryKnown then (.error (lit "could not resolve Such executable directory"), ticket)
    else if !site.cliPresent then
      (.error (lit "index worker executable is missing beside Such"), ticket)
    else
      let ticket := { ticket with
        diagnosticPath := launchDiagnostic platform site ticket.diagnosticPath }
      match site.process with
      | none => (.error (startError platform), ticket)
      | some process => (.ok (), { ticket with nativeProcess := process.val })

/-- The exit code a finished wait stands for; `none` while the process runs. -/
def exitCode : Waited → Option Int
  | .running => none
  | .exited code => some code
  | .signaled signal => some (128 + signal)
  | .refused errno => some errno
  | .unknown => some 1

def Waited.isRefused : Waited → Bool
  | .refused _ => true
  | _ => false

/-- A refused wait counts as a failure whatever its error number. -/
def pollIndexWorker (waited : Waited) (ticket : IndexWorkerTicket) :
    IndexWorkerPoll × Int × IndexWorkerTicket :=
  if !ticket.valid then (.succeeded, 0, ticket)
  else
    match exitCode waited with
    | none => (.running, 0, ticket)
    | some code =>
      (if code == 0 && !waited.isRefused then .succeeded else .failed, code,
        closeIndexWorkerTicket ticket)

@[simp] theorem valid_close (ticket : IndexWorkerTicket) :
    (closeIndexWorkerTicket ticket).valid = false := rfl

/-- The ticket is valid exactly after a launch that succeeded. -/
theorem launch_valid_iff (platform : PlatformDialect) (site : LaunchSite)
    (request : IndexWorkerRequest) (ticket : IndexWorkerTicket) :
    (launchIndexWorkerTracked platform site request ticket).2.valid = true ↔
      (launchIndexWorkerTracked platform site request ticket).1 = .ok () := by
  simp only [launchIndexWorkerTracked]
  cases validateWorkerRequest request with
  | error e => simp only [valid_close, Bool.false_eq_true, reduceCtorEq]
  | ok u =>
    cases site.directoryKnown with
    | false => simp only [Bool.not_false, if_true, valid_close, Bool.false_eq_true, reduceCtorEq]
    | true =>
      cases site.cliPresent with
      | false =>
        simp only [Bool.not_true, Bool.not_false, Bool.false_eq_true, if_false, if_true, valid_close,
          reduceCtorEq]
      | true =>
        cases site.process with
        | none =>
          simp only [Bool.not_true, Bool.false_eq_true, if_false, reduceCtorEq, iff_false]
          intro valid
          cases valid
        | some process =>
          simp only [Bool.not_true, Bool.false_eq_true, if_false, iff_true,
            IndexWorkerTicket.valid, bne_iff_ne]
          exact process.property

/-- A poll that does not answer `running` closes the ticket. -/
theorem poll_valid_iff {waited : Waited} {ticket : IndexWorkerTicket} (tracked : ticket.valid = true) :
    (pollIndexWorker waited ticket).2.2.valid = true ↔
      (pollIndexWorker waited ticket).1 = .running := by
  simp only [pollIndexWorker]
  simp only [tracked, Bool.not_true, Bool.false_eq_true, if_false]
  cases exitCode waited with
  | none => simp only [tracked]
  | some code =>
    simp only [valid_close, Bool.false_eq_true, false_iff]
    split <;> exact IndexWorkerPoll.noConfusion

end Such.IndexWorkerLauncher
