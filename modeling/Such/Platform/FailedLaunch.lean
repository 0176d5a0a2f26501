import Such.Platform.Win32Frontend.RuntimeGuard
import Such.Platform.X11Frontend

/-! What a failed worker launch leaves of the frontend's runtime client. Both frontends release
it before the launch and load one again when that fails. -/
namespace Such.X11Frontend.UiState
open ByteText RuntimeClient IndexWorkerLauncher
variable {W σ : Type} (host : X11Host W σ)

/-- The X11 frontend loads the very client it released, whatever became of the launch. -/
theorem readOnly_launchIndexWorker (request : IndexWorkerRequest) (action : Bytes) (s : UiState W σ) :
    (s.launchIndexWorker host request action).2.runtime.readOnly = s.runtime.readOnly := by
  simp only [launchIndexWorker]
  split
  · exact Client.readOnly_load host.library host.look s.runtime.unload _
  · simp only [recordDaily]
    split
    · split <;> rfl
    · rfl

end Such.X11Frontend.UiState

namespace Such.Win32Frontend
open ByteText CivilTime SearchDialect RuntimeClient IndexWorkerLauncher Frontend

namespace Gui
variable {W σ : Type} (host : Win32Host W σ)

/-- Access to the index is what it was, if there is a client at all. -/
def KeepsWriting (before after : Gui W σ) : Prop :=
  before.access = some false → ∀ client ∈ after.runtime, client.readOnly = false

/-- The state in which a launch has failed. -/
def launched (request : IndexWorkerRequest) (g : Gui W σ) : Gui W σ :=
  ((g.settleWorker host).2.launchWorker host request).2

/-- A read-only client loads in the surroundings that the launch leaves. -/
def ReaderLoads (request : IndexWorkerRequest) (g : Gui W σ) : Prop :=
  (reader.load host.library host.look (g.launched host request).world).1 = .ok ()

theorem access_reportIndexWorker (workerExitCode : Int) (status : RuntimeStatus) (g : Gui W σ) :
    (g.reportIndexWorker host workerExitCode status).access = g.access := by
  simp only [reportIndexWorker]
  rw [access_refreshQuery]
  simp only [access]
  split
  · rw [recordDaily_runtime]
  · rw [recordDaily_runtime]

/-- The reload leaves no client, or one that reads only unless the worker succeeded. -/
theorem access_reloadRuntime (workerExitCode : Int) (g : Gui W σ) :
    (g.reloadRuntimeAfterIndexWorker host workerExitCode).access =
      if (Client.load host.library host.look { readOnly := decide (workerExitCode ≠ 0) }
        g.world).1 = .ok () then some (decide (workerExitCode ≠ 0)) else none := by
  have kept := Client.readOnly_load host.library host.look
    { readOnly := decide (workerExitCode ≠ 0) } g.world
  simp only [reloadRuntimeAfterIndexWorker]
  generalize Client.load host.library host.look { readOnly := decide (workerExitCode ≠ 0) }
    g.world = loaded at kept ⊢
  obtain ⟨outcome, client, world⟩ := loaded
  dsimp only at kept
  cases outcome with
  | error e =>
    rw [if_neg (by simp)]
    rfl
  | ok done =>
    rw [if_pos rfl]
    dsimp only
    rw [access_reportIndexWorker]
    exact congrArg some ((Client.readOnly_status host.library client).trans kept)

theorem startIndexWorker_failed {request : IndexWorkerRequest} {action : Bytes} {g : Gui W σ}
    (failed : (g.startIndexWorker host request action).1 = .failed) :
    ∃ shown, (g.startIndexWorker host request action).2 =
      { (g.launched host request).reloadRuntimeAfterIndexWorker host (-1) with searchError := shown } := by
  simp only [startIndexWorker, launched] at failed ⊢
  generalize g.settleWorker host = settled at failed ⊢
  obtain ⟨busy, t⟩ := settled
  cases busy with
  | true => cases failed
  | false =>
    dsimp only at failed ⊢
    generalize t.launchWorker host request = launch at failed ⊢
    obtain ⟨outcome, u⟩ := launch
    cases outcome with
    | ok done => cases failed
    | error e => exact ⟨_, rfl⟩

/-- Behind a failed launch there is no client, or one that reads only. -/
theorem access_failed_launch {request : IndexWorkerRequest} {action : Bytes} {g : Gui W σ}
    (failed : (g.startIndexWorker host request action).1 = .failed) :
    (g.startIndexWorker host request action).2.access =
      if (reader.load host.library host.look (g.launched host request).world).1 = .ok () then
        some true else none := by
  obtain ⟨shown, after⟩ := startIndexWorker_failed host failed
  rw [after]
  exact access_reloadRuntime host (-1) (g.launched host request)

end Gui

open Gui

/-- A failed launch takes write access away from a client that had it whenever the reload
succeeds: the reload that also serves finished workers picks a read-only client for every exit
code but 0, and a launch that failed is passed as -1. -/
theorem failed_launch_keeps_writing_iff {W σ : Type} (host : Win32Host W σ)
    (request : IndexWorkerRequest) (action : Bytes) (g : Gui W σ)
    (failed : (g.startIndexWorker host request action).1 = .failed) :
    g.KeepsWriting (g.startIndexWorker host request action).2 ↔
      ¬ (g.access = some false ∧ g.ReaderLoads host request) := by
  have after := access_failed_launch host failed
  rw [not_and]
  apply imp_congr_right
  intro _
  simp only [ReaderLoads]
  split at after
  · rename_i loads
    obtain ⟨client, held, only⟩ := Option.map_eq_some_iff.mp after
    refine iff_of_false ?_ (not_not_intro loads)
    intro keeps
    exact absurd (only.symm.trans (keeps client held)) (by decide)
  · rename_i fails
    refine iff_of_true ?_ fails
    intro client held
    rw [Option.map_eq_none_iff.mp after] at held
    cases held

/-- The command-line tool is missing beside the program, so no worker starts. -/
def noToolHost (createsReadonly : Bool) : Win32Host Unit Unit where
  library := { Process.emptyLibrary with
    view := fun _ => {
      lastError := []
      listExtensions := []
      search := fun _ _ _ => .ok []
      searchContent := some fun _ => .ok [] } }
  look w := ({
    libraryPath := lit "C:\\such\\such.dll"
    createsReadonly := createsReadonly
    create := fun _ => some ()
    load := fun s => (true, s) }, w)
  zone := Zone.utc
  now _ := 1700000000
  wait _ w := (.running, w)
  launchSite w := ({ cliPresent := false, process := none }, w)
  persist _ w := (.ok (), w)
  dailyFile _ := .noDirectory
  fontInstalled _ _ := true
  saveFont _ w := (true, w)
  opensAgent _ := true
  diagnostic _ _ := none

/-- A window over a client that reads and writes. -/
def openGui : Gui Unit Unit where
  demo := false
  smoke := false
  runtime := some { runtime := some () }
  world := ()

/-- What the client there is says to a content query. -/
def contentError (host : Win32Host W σ) (g : Gui W σ) : Option Bytes :=
  g.runtime.map fun client =>
    (client.search host.library host.zone .windows (host.now g.world) (lit "/inside plan") 10).1.2

/-- The runtime has no read-only entry point, so the reload fails and no client is left. -/
theorem failed_rebuild_without_reader :
    openGui.KeepsWriting (openGui.startIndexWorker (noToolHost false) {} (lit "Index rebuild")).2 :=
  (failed_launch_keeps_writing_iff (noToolHost false) {} (lit "Index rebuild") openGui (by decide)).mpr
    fun both => absurd both.2 (by simp only [ReaderLoads]; decide)

/-- A rebuild that cannot start costs the window its content search. -/
theorem failed_rebuild_reads_only :
    (openGui.startIndexWorker (noToolHost true) {} (lit "Index rebuild")).1 = .failed ∧
      ¬ openGui.KeepsWriting (openGui.startIndexWorker (noToolHost true) {} (lit "Index rebuild")).2 ∧
      contentError (noToolHost true) openGui = some [] ∧
      contentError (noToolHost true)
          (openGui.startIndexWorker (noToolHost true) {} (lit "Index rebuild")).2 =
        some (lit "Document contents are still indexing. Filename search is available.") := by
  refine ⟨by decide, ?_, by decide +kernel, by decide +kernel⟩
  simp only [KeepsWriting]
  decide

end Such.Win32Frontend
