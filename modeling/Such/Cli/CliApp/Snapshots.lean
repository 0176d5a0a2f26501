import Such.Cli.CliApp.Run
import Such.Runtime.IndexRootService.Rollback
import Such.Runtime.IndexSnapshot.RoundTrip

/-! A snapshot taken from the command line and restored from it later: the exit codes, the state
directory and the roots that the restored runtime lists. -/
namespace LexicalPath
open ByteText FileSystem

end LexicalPath

namespace Such.CliApp
open ByteText LexicalPath FileSystem SearchDialect QueryCommands
open RuntimeClient IndexRootService IndexWorker IndexSnapshot

section Snapshots
variable {W σ : Type} {host : CliHost W σ}

/-- What a runtime that is opened in a world lists as its roots. -/
def listed (host : CliHost W σ) (w : W) : Except Bytes (List Bytes) :=
  match (({} : Client σ).ensureReady host.library host.look w).1 with
  | .error failed => .error (runtimeError (failed.impl host.library))
  | .ok runtime => (runtime.roots host.library).1

/-- Two worlds whose state directories hold the same files, apart from those no export carries. -/
def SameState (stateDirectory : Bytes) (disk disk' : Disk) : Prop :=
  ∀ r content, excludedStateFile (append stateDirectory (joinNames r)) = false →
    (get disk (locate stateDirectory ++ r) = some (.file content) ↔
      get disk' (locate stateDirectory ++ r) = some (.file content))

/-- A runtime takes its roots from the files of the state directory, and the world keeps a disk that
is put in its place. -/
structure Remembers (host : CliHost W σ) (stateDirectory : Bytes) : Prop where
  disk_setDisk : ∀ disk w, host.disk (host.setDisk disk w) = disk
  listed_of_state : ∀ w v, SameState stateDirectory (host.disk w) (host.disk v) →
    listed host w = listed host v

variable {stateDirectory path : Bytes} {d : Loc} {name : Name} {w v : W}
  {roots : List Bytes} {generation : Nat}

end Snapshots

/-- The one root that a file of the state directory `/s` names. -/
def storedRoots (disk : Disk) : List Bytes :=
  match get disk [stateName, indexName] with
  | some (.file root) => [root]
  | _ => []

/-- The command line beside a runtime that takes its root from `/s/a`. -/
def storedCli : CliHost Disk Abi where
  platform := .posix some
  dialect := .unixLike
  library := Abi.library (.posix some) none
  look disk := ({ libraryPath := lit "libsuch_private_runtime.so"
                  create := fun _ => some { roots := storedRoots disk }
                  load := fun r => (true, r) }, disk)
  waitForIdle r := r
  crawl _ r := r
  around _ := ⟨CivilTime.Zone.utc, 1700000000, id⟩
  openTrunc := openTruncOn id fun disk _ => disk
  version := lit "1.0.0"
  stdinIsTerminal := false
  typedLines := []
  processes := .other fun _ disk => ({}, disk)
  zone := CivilTime.Zone.utc
  now _ := 1700000000
  disk := id
  setDisk disk _ := disk
  settings := { temporaryDirectory := lit "/tmp" }
  environment := namedEnvironment (lit "/s") (by decide)
  systemMessage _ := []
  saveFault _ := none
  walk _ := sparseWalk (lit "/s")
  exportFault _ := none
  importFault _ := none
  stamps _ := (1, 2)
  dailyFile _ := .absent
  persist _ disk := (.ok (), disk)
  destroy _ disk := disk

theorem storedCli_remembers : Remembers storedCli (lit "/s") where
  disk_setDisk _ _ := rfl
  listed_of_state disk disk' same := by
    have place : locate (lit "/s") ++ [indexName] = [stateName, indexName] := by decide +kernel
    have roots : storedRoots disk = storedRoots disk' := by
      have one := fun content => same [indexName] content (by decide +kernel)
      simp only [place, storedCli, id] at one
      simp only [storedRoots]
      split
      · rename_i root file
        rw [(one root).mp file]
      · rename_i other
        split
        · rename_i root file
          exact absurd ((one root).mpr file) (other root)
        · rfl
    have lists : ∀ disk, listed storedCli disk = .ok ((storedRoots disk).map cstr) := fun _ => rfl
    rw [lists, lists, roots]

end Such.CliApp
