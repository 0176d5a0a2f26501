import Such.Cli.ProcessControl

/-! Stopping the running processes of an installation on the POSIX systems. `W` is the state of the
system. -/
namespace Such.ProcessControl
open ByteText LexicalPath

inductive Signal where
  | probe
  | term
  | kill
deriving DecidableEq, Repr

/-- What `kill` answers: delivered, or the error that there is no such process, or another one. -/
inductive Sent where
  | delivered
  | noSuchProcess
  | refused
deriving DecidableEq, Repr

structure StopResult where
  matched : Nat := 0
  stopped : Nat := 0
  forced : Nat := 0
  failed : Nat := 0
  error : Bytes := []
deriving DecidableEq, Repr

/-- A POSIX system, as the process with the number `self` meets it. Its steady clock never goes
back, and a sleep lasts at least its milliseconds. -/
structure PosixHost (W : Type) where
  self : Int
  steadyNow : W → Nat
  kill : Int → Signal → W → Sent × W
  sleep : Nat → W → W
  steadyNow_kill : ∀ pid signal w, steadyNow w ≤ steadyNow (kill pid signal w).2
  steadyNow_sleep : ∀ ms w, steadyNow w + ms ≤ steadyNow (sleep ms w)

namespace PosixHost
variable {W : Type} (host : PosixHost W)

def alive (pid : Int) (w : W) : Bool × W :=
  let (sent, w) := host.kill pid .probe w
  (sent != .noSuchProcess, w)

theorem steadyNow_alive (pid : Int) (w : W) :
    host.steadyNow w ≤ host.steadyNow (host.alive pid w).2 := host.steadyNow_kill pid .probe w

/-- Looks every 40 milliseconds until the clock shows `finish`, and once more then. -/
def waitUntil (pid : Int) (finish : Nat) (w : W) : Bool × W :=
  let looked := host.alive pid w
  if host.steadyNow w < finish then
    if !looked.1 then (true, looked.2) else waitUntil pid finish (host.sleep 40 looked.2)
  else (!looked.1, looked.2)
termination_by finish - host.steadyNow w
decreasing_by
  have later := host.steadyNow_alive pid w
  have slept := host.steadyNow_sleep 40 (host.alive pid w).2
  omega

def waitDead (pid : Int) (timeout : Nat) (w : W) : Bool × W :=
  host.waitUntil pid (host.steadyNow w + timeout) w

/-- Unless it was killed at once, a process that is still there after its time is killed. -/
def killIfAlive (force : Bool) (pid : Int) (out : StopResult) (w : W) : StopResult × W :=
  if force then (out, w)
  else
    match host.waitDead pid 1500 w with
    | (true, w) => (out, w)
    | (false, w) =>
      match host.kill pid .kill w with
      | (.delivered, w) => ({ out with forced := out.forced + 1 }, w)
      | (_, w) => (out, w)

/-- Counts a signalled process by what is seen of it in the half second that follows. -/
def countEnd (pid : Int) (out : StopResult) (w : W) : StopResult × W :=
  match host.waitDead pid 500 w with
  | (true, w) => ({ out with stopped := out.stopped + 1 }, w)
  | (false, w) => ({ out with failed := out.failed + 1 }, w)

/-- Stops one process. -/
def stopOne (force : Bool) (pid : Int) (out : StopResult) (w : W) : StopResult × W :=
  let out := { out with matched := out.matched + 1 }
  match host.kill pid (if force then .kill else .term) w with
  | (.delivered, w) =>
    let (out, w) := host.killIfAlive force pid out w
    host.countEnd pid out w
  | (_, w) => ({ out with failed := out.failed + 1 }, w)

/-- Goes through a listing of processes and stops those that `select` picks; `select` also says
whether the test of a later entry may still be believed. -/
def sweep {C : Type} (force : Bool) (select : Bool → C → W → Bool × Option Int) :
    Bool → List C → StopResult → W → StopResult × W
  | _, [], out, w => (out, w)
  | failing, entry :: rest, out, w =>
    match select failing entry w with
    | (failing, none) => sweep force select failing rest out w
    | (failing, some pid) =>
      let (out, w) := host.stopOne force pid out w
      sweep force select failing rest out w

end PosixHost

/-- The parts of `/proc` that are read. An entry's type may fail to be found. -/
structure LinuxProcesses (W : Type) extends PosixHost W where
  readlink : Bytes → W → Option Bytes
  isDirectory : Bytes → W → Option Bool
  comm : Bytes → W → Option Bytes

namespace LinuxProcesses
variable {W : Type} (host : LinuxProcesses W)

def readProcExecutable (pid : Int) (w : W) : Bytes :=
  let link := if pid = host.self then lit "/proc/self/exe"
    else lit "/proc/" ++ decimalInt pid ++ lit "/exe"
  match host.readlink link w with
  | none => []
  | some target => lexicallyNormal .posix (cstr (target.take 4095))

/-- The number in an entry's name, when it fits a `long`; a process number keeps 32 bits of it. -/
def pidOf (leaf : Bytes) : Option Int :=
  if allDigits leaf && digitsValue leaf < 2 ^ 63 then some ((digitsValue leaf : Int).bmod (2 ^ 32))
  else none

/-- The process of an entry, if it is another one of this installation. -/
def ownPid (selfExecutable leaf : Bytes) (w : W) : Option Int := do
  let pid ← pidOf leaf
  if pid ≤ 0 || pid = host.self then none
  else
    let name := ((host.comm leaf w).getD []).takeWhile (· != 10)
    if isOwnProcess selfExecutable name (host.readProcExecutable pid w) then some pid else none

/-- The error of a failed test for a directory is not cleared before the next entry, which is
passed over because of it, and so are all the later ones. -/
def select (selfExecutable : Bytes) (failing : Bool) (leaf : Bytes) (w : W) : Bool × Option Int :=
  if failing then (true, none)
  else
    match host.isDirectory leaf w with
    | none => (true, none)
    | some false => (false, none)
    | some true => (false, host.ownPid selfExecutable leaf w)

/-- `listing` is what the iterator over `/proc` yields. -/
def stopSuchProcesses (force : Bool) (listing : List Bytes) (w : W) : StopResult × W :=
  let selfExecutable := host.readProcExecutable host.self w
  if selfExecutable.isEmpty then
    ({ error := lit "could not resolve the current Such executable path" }, w)
  else host.sweep force (host.select selfExecutable) false listing {} w

end LinuxProcesses

/-- `fillPids` is given the room for process numbers and answers the bytes used and the numbers. -/
structure AppleProcesses (W : Type) extends PosixHost W where
  pidBytes : W → Int
  fillPids : Nat → W → Int × List Int
  procName : Int → W → Option Bytes

namespace AppleProcesses
variable {W : Type} (host : AppleProcesses W)

/-- Here a process is known by its name alone. -/
def select (failing : Bool) (pid : Int) (w : W) : Bool × Option Int :=
  if pid ≤ 0 || pid = host.self then (failing, none)
  else
    match host.procName pid w with
    | none => (failing, none)
    | some name => (failing, if isTargetName (cstr name) then some pid else none)

def stopSuchProcesses (force : Bool) (w : W) : StopResult × W :=
  let bytes := host.pidBytes w
  if bytes ≤ 0 then ({ error := lit "proc_listpids failed" }, w)
  else
    let (used, pids) := host.fillPids (bytes.toNat / 4 + 16) w
    if used ≤ 0 then ({ error := lit "proc_listpids failed" }, w)
    else host.sweep force host.select false (pids.take (used.toNat / 4)) {} w

end AppleProcesses

end Such.ProcessControl
