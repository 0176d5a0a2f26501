import Such.Platform.LinuxIndexRoots.Discovery
import Such.Platform.X11Frontend.Boundary

/-! What stands in the frontend's list while a root picker is open, over whole runs: the folders of
one discovery, whatever happened since it was shown. -/
namespace Such.X11Frontend
open ByteText CivilTime SearchDialect QueryCommands RuntimeClient IndexWorkerLauncher Frontend
open ResponsiveLayout SwipeActions DrivenMachine

namespace UiState
variable {W σ : Type} (host : X11Host W σ) {s t : UiState W σ}

/-- The rows of an open picker are the candidates of one moment, all of them and in their order. -/
def PickerShown (s : UiState W σ) : Prop :=
  s.rootPickerKind ≠ .noCommand → s.results ≠ [] →
    ∃ w, s.results.map (·.path) = (host.indexRootCandidates w).map (·.path)

/-- The picker and the paths of the rows are as they were. -/
structure SameRows (s t : UiState W σ) : Prop where
  picker : t.rootPickerKind = s.rootPickerKind
  paths : t.results.map (·.path) = s.results.map (·.path)

variable {host}

theorem SameRows.shown (same : SameRows s t) (shown : PickerShown host s) : PickerShown host t := by
  intro picks filled
  have before : s.results ≠ [] := by
    intro empty
    apply filled
    have paths := same.paths
    rwa [empty, List.map_nil, List.map_eq_nil_iff] at paths
  obtain ⟨w, listed⟩ := shown (same.picker ▸ picks) before
  exact ⟨w, same.paths.trans listed⟩

end UiState
end Such.X11Frontend
