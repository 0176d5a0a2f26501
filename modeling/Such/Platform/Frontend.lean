import Such.Ui.QueryCommands
import Such.Ui.SearchDialect.Autocomplete
import Such.Ui.ResultView
import Such.Ui.SwipeActions
import Such.Base.LexicalPath
import Such.Base.DrivenMachine
import Such.Runtime.RuntimeClient.Lifecycle
import Such.Runtime.IndexWorkerLauncher
import Such.Runtime.DailyIndexRefresh

/-! What the two desktop frontends share: the committed-input gate and the surroundings
they ask. `W` is the state of everything outside the frontend's process. -/
namespace Such.Frontend
open ByteText CivilTime RuntimeClient IndexWorkerLauncher

/-- Only text that the input method has committed gets through, and each text once. -/
structure CommittedInputGate where
  composing : Bool := false
  last : Option Bytes := none
deriving DecidableEq, Repr

def CommittedInputGate.accept (committed : Bytes) (gate : CommittedInputGate) :
    Bool × CommittedInputGate :=
  if gate.composing || gate.last = some committed then (false, gate)
  else (true, { gate with last := some committed })

/-- The answers a frontend gets from outside. A call that may change the outside, or that
may be answered differently the next time, returns the new outside. -/
structure Host (W σ : Type) where
  library : Library σ
  look : W → Installation σ × W
  zone : Zone
  now : W → Int
  wait : Nat → W → Waited × W
  launchSite : W → LaunchSite × W
  persist : Bytes → W → Except Bytes Unit × W
  dailyFile : W → DailyIndexRefresh.StateFile

def rootItem (convention : LexicalPath.Convention) (root : Bytes) : ResultItem where
  path := root
  filename :=
    let name := LexicalPath.filename convention root
    if name.isEmpty then root else name

end Such.Frontend
