import Such.Platform.Frontend

/-! The Win32 frontend: its globals, its message handlers and the message loops its modal
dialogs run. A handler that shows a dialog is suspended until the dialog returns; other
messages are handled in between. Drawing, layout and pointer geometry are left out: a
pointer message enters as the row and the action it hits. -/
namespace Such.Win32Frontend
open ByteText CivilTime SearchDialect QueryCommands RuntimeClient IndexWorkerLauncher Frontend
open SwipeActions

structure Win32Host (W σ : Type) extends Host W σ where
  fontInstalled : W → Bytes → Bool
  saveFont : Bytes → W → Bool × W
  opensAgent : W → Bool
  /-- The first line of a worker's diagnostic file. -/
  diagnostic : Bytes → W → Option Bytes

/-- What a handler still does once its message box is closed. -/
inductive AfterMessage where
  | nothing
  | clearCommand
  | returnRest
  | recordFailure
  | refresh
  | startup
deriving DecidableEq, Repr

/-- A handler suspended in a dialog. -/
inductive Modal where
  | folderForAdd (preserveQuery : Bool)
  | folderForCommand (operation : IndexWorkerOperation) (action : Bytes)
  | message (next : AfterMessage)
deriving DecidableEq, Repr

/-- The globals. `runtime` is `gRuntime`, `none` for null; `searchText` is the text of the
search box; `modals` has the innermost dialog first. -/
structure Gui (W σ : Type) where
  searchText : Bytes := []
  query : Bytes := []
  inputGate : CommittedInputGate := {}
  results : List ResultItem := []
  suggestions : List Suggestion := []
  searchError : Bytes := []
  selectedRow : Int := -1
  fontPickerSelection : Int := 0
  demo : Bool
  smoke : Bool
  runtime : Option (Client σ) := none
  runtimeGeneration : Nat := 0
  runtimeIndexedFiles : Nat := 0
  runtimeIndexing : Bool := false
  indexWorker : IndexWorkerTicket := {}
  indexWorkerAction : Bytes := []
  indexWorkerFailure : Bytes := []
  dailyRefresh : DailyIndexRefresh := {}
  dailyRefreshReady : Bool := false
  startupReindexNeeded : Bool := false
  modals : List Modal := []
  quitting : Bool := false
  world : W

inductive Event where
  | timer
  | edited (text : Bytes)
  | imeStart
  | imeEnd
  | refreshAfterIme
  | returnKey
  | tabKey
  | closeTransient
  | moveSelection (down : Bool)
  | clickRow (row : Int)
  | clickClear
  | clickSuggestion (index : Nat)
  | clickFont (row : Nat)
  | act (row : Int) (action : ResultAction)
  | paint
  | destroy
  /-- The innermost dialog returns, a folder dialog with the folder chosen. -/
  | returned (chosen : Option Bytes)
deriving DecidableEq, Repr

/-- Input that a window disabled by a dialog does not get. -/
def Event.isInput : Event → Bool
  | .timer | .paint | .refreshAfterIme | .destroy | .returned _ => false
  | _ => true

inductive Start where
  | started
  | refused
  | failed
deriving DecidableEq, Repr

/-- Suggested extensions while there is no runtime to observe. -/
def fallbackExtensions : List Bytes :=
  ["pdf", "dwg", "xlsx", "docx", "3dm", "cpp", "rs", "ifc", "rvt"].map lit

namespace Gui
variable {W σ : Type} (host : Win32Host W σ)

def push (modal : Modal) (g : Gui W σ) : Gui W σ := { g with modals := modal :: g.modals }

def rootItems (g : Gui W σ) : List ResultItem × Gui W σ :=
  match g.runtime with
  | none => ([], g)
  | some client =>
    let ((roots, error), client) := client.roots host.library
    let g := { g with runtime := some client }
    if !error.isEmpty then ([], { g with searchError := lit "Could not list search roots: " ++ error })
    else (roots.map (rootItem .windows), g)

def showSearch (g : Gui W σ) : Gui W σ :=
  let now := host.now g.world
  if g.demo then
    { g with results := ResultView.makeDemoResults host.zone g.query .windows now }
  else
    match g.runtime with
    | none => { g with results := [] }
    | some client =>
      let ((results, error), client) :=
        client.search host.library host.zone .windows now g.query 0
      { g with
        results := results, runtime := some client
        searchError := if !g.indexWorkerFailure.isEmpty then g.indexWorkerFailure else error }

def showQuery (g : Gui W σ) : Gui W σ :=
  let g := { g with searchError := g.indexWorkerFailure }
  let indexCommand := parseIndexCommand g.query .windows
  let observed := (g.runtime.map (·.observed host.library)).getD fallbackExtensions
  let completed := { g with suggestions := autocomplete g.query .windows observed }
  if (parseAgentCommand g.query .windows).isSome then { g with suggestions := [], results := [] }
  else if (parseFontCommand g.query .windows).isMatched then
    { g with
      suggestions := [], results := []
      fontPickerSelection := ResponsiveLayout.clamp g.fontPickerSelection 0 4 }
  else if indexCommand.isMatched then
    if indexCommand.kind = .showRoots then
      let (rows, g) := completed.rootItems host
      { g with results := rows }
    else { completed with results := [] }
  else completed.showSearch host

def clampSelection (g : Gui W σ) : Gui W σ :=
  { g with
    selectedRow := if g.results.isEmpty then -1
      else ResponsiveLayout.clamp g.selectedRow 0 ((g.results.length : Int) - 1) }

/-- Text under composition is never dispatched. -/
def refreshQuery (g : Gui W σ) : Gui W σ :=
  if g.inputGate.composing then g
  else
    let g := { g with
      query := g.searchText, inputGate := (g.inputGate.accept g.searchText).2 }
    (g.showQuery host).clampSelection

def refreshCommittedEditInput (g : Gui W σ) : Gui W σ :=
  if g.inputGate.composing then g
  else
    let (changed, gate) := g.inputGate.accept g.searchText
    let g := { g with inputGate := gate }
    if changed then g.refreshQuery host else g

/-- Setting the text of the search box notifies the frontend like an edit does. -/
def setSearchText (text : Bytes) (g : Gui W σ) : Gui W σ :=
  { g with searchText := text }.refreshCommittedEditInput host

/-- How a command leaves the search box. -/
def clearCommand (g : Gui W σ) : Gui W σ :=
  { g.setSearchText host [] with query := [], suggestions := [], results := [] }

/-- `gRuntime->status()`; `none` is the use of a null pointer. -/
def useStatus (g : Gui W σ) : Option (RuntimeStatus × Gui W σ) := do
  let client ← g.runtime
  let (status, client) := client.status host.library
  return (status, { g with runtime := some client })

/-- `gRuntime->roots(&error)`. -/
def useRoots (g : Gui W σ) : Option ((List Bytes × Bytes) × Gui W σ) := do
  let client ← g.runtime
  let (listed, client) := client.roots host.library
  return (listed, { g with runtime := some client })

/-- `gRuntime->generation()`. -/
def useGeneration (g : Gui W σ) : Option Nat := g.runtime.map (·.generation host.library)

def recordDaily
    (record : (Bytes → W → Except Bytes Unit × W) → Int → DailyIndexRefresh → W →
      Except Bytes Unit × DailyIndexRefresh × W)
    (failure : Bytes → Bytes → Bytes) (g : Gui W σ) : Gui W σ :=
  if g.dailyRefreshReady then
    let (saved, daily, world) := record host.persist (host.now g.world) g.dailyRefresh g.world
    let g := { g with dailyRefresh := daily, world := world }
    match saved with
    | .ok () => g
    | .error e => { g with searchError := failure g.searchError e }
  else g

def replaceError (_ e : Bytes) : Bytes := lit "Daily index refresh state: " ++ e

def appendError (shown e : Bytes) : Bytes :=
  shown ++ lit " (Could not persist retry time: " ++ e ++ lit ")"

def workerFailure (workerExitCode : Int) (status : RuntimeStatus) (g : Gui W σ) : Bytes :=
  let reported := if !status.lastError.isEmpty then status.lastError
    else lit "Background indexing failed (worker exit " ++ decimalInt workerExitCode ++ lit ")."
  if g.indexWorker.diagnosticPath.isEmpty then reported
  else
    match host.diagnostic g.indexWorker.diagnosticPath g.world with
    | none => reported
    | some line => if line.isEmpty then reported else reported ++ 32 :: line.take 2048

/-- What the frontend shows and records once the replacement client is in place. -/
def reportIndexWorker (workerExitCode : Int) (status : RuntimeStatus) (g : Gui W σ) : Gui W σ :=
  let g := { g with
    runtimeGeneration := status.generation, runtimeIndexedFiles := status.indexedFiles,
    runtimeIndexing := false }
  let completed := decide (workerExitCode = 0) && !status.indexing && status.lastError.isEmpty
  let g :=
    if completed then
      { g with searchError := [] }.recordDaily host DailyIndexRefresh.recordSuccess replaceError
    else
      { g with searchError := g.workerFailure host workerExitCode status }.recordDaily host
        DailyIndexRefresh.recordFailure appendError
  { g with indexWorkerFailure := g.searchError }.refreshQuery host

/-- The replacement reads only, unless the worker succeeded. -/
def reloadRuntimeAfterIndexWorker (workerExitCode : Int) (g : Gui W σ) : Gui W σ :=
  let replacement : Client σ := { readOnly := decide (workerExitCode ≠ 0) }
  match replacement.load host.library host.look g.world with
  | (.error e, _, world) =>
    { g with
      runtime := none, world := world, runtimeIndexing := false
      searchError := lit "Could not reload Such index after background worker: " ++ e }
  | (.ok (), client, world) =>
    let (status, client) := client.status host.library
    { g with runtime := some client, world := world }.reportIndexWorker host workerExitCode status

def pollTracked (g : Gui W σ) : (IndexWorkerPoll × Int) × Gui W σ :=
  let (waited, world) := host.wait g.indexWorker.nativeProcess g.world
  let (poll, exitCode, ticket) := pollIndexWorker waited g.indexWorker
  ((poll, exitCode), { g with indexWorker := ticket, world := world })

def pollIndexWorkerAndReload (g : Gui W σ) : Gui W σ :=
  if !g.indexWorker.valid then g
  else
    match g.pollTracked host with
    | ((.running, _), g) => { g with runtimeIndexing := true }
    | ((poll, exitCode), g) =>
      let action := g.indexWorkerAction
      let g := { g with indexWorkerAction := [] }.reloadRuntimeAfterIndexWorker host exitCode
      if poll = .failed ∧ g.searchError.isEmpty then
        { g with
          searchError := if action.isEmpty then lit "Background indexing failed."
            else action ++ lit " failed." }
      else g

/-- A finished worker is settled first; true when the tracked one still runs. -/
def settleWorker (g : Gui W σ) : Bool × Gui W σ :=
  if g.indexWorker.valid then
    match g.pollTracked host with
    | ((.running, _), g) => (true, g)
    | ((_, exitCode), g) => (false, g.reloadRuntimeAfterIndexWorker host exitCode)
  else (false, g)

/-- The client is released before the worker opens the same state. -/
def launchWorker (request : IndexWorkerRequest) (g : Gui W σ) : Except Bytes Unit × Gui W σ :=
  let (site, world) := host.launchSite g.world
  let (launched, ticket) := launchIndexWorkerTracked .windows site request g.indexWorker
  (launched, { g with
    runtime := none, results := [], suggestions := [], indexWorker := ticket, world := world })

/-- A reader of the filename checkpoint stands in while the worker runs, if it loads. -/
def attachReader (action : Bytes) (g : Gui W σ) : Gui W σ :=
  let reader : Client σ := { readOnly := true }
  let (loaded, client, world) := reader.load host.library host.look g.world
  let runtime := match loaded with
    | .ok () => some client
    | .error _ => g.runtime
  let g := { g with
    runtime := runtime, world := world, indexWorkerFailure := [], indexWorkerAction := action }
  { g.recordDaily host DailyIndexRefresh.recordAttempt replaceError with runtimeIndexing := true }

/-- A failed launch has a message to show, which is left to the caller. -/
def startIndexWorker (request : IndexWorkerRequest) (action : Bytes) (g : Gui W σ) :
    Start × Gui W σ :=
  match g.settleWorker host with
  | (true, g) => (.refused, g)
  | (false, g) =>
    match g.launchWorker host request with
    | (.error e, g) =>
      let g := g.reloadRuntimeAfterIndexWorker host (-1)
      (.failed, { g with
        searchError := if e.isEmpty then lit "Could not start background indexing." else e })
    | (.ok (), g) => (.started, g.attachReader host action)

/-- Starts a worker for a command and then clears the command, behind the message of a
failed launch. -/
def startForCommand (request : IndexWorkerRequest) (action : Bytes) (g : Gui W σ) : Gui W σ :=
  match g.startIndexWorker host request action with
  | (.failed, g) => g.push (.message .clearCommand)
  | (_, g) => g.clearCommand host

def executeRootCommand (operation : IndexWorkerOperation) (action : Bytes) (argument : Option Bytes)
    (g : Gui W σ) : Gui W σ :=
  match argument with
  | some path => g.startForCommand host { operation := operation, roots := [path] } action
  | none => g.push (.folderForCommand operation action)

def shardCount (argument : Option Bytes) : Int :=
  match argument with
  | none => -1
  | some mode => if mode = lit "auto" then 0 else digitsValue mode

/-- `none` when the query is no index command or there is no runtime. -/
def executeIndexCommand (g : Gui W σ) : Option (Gui W σ) :=
  let command := parseIndexCommand g.query .windows
  if g.runtime.isNone then none
  else
    match command.kind with
    | .addRoot =>
      some (g.executeRootCommand host .addRoot (lit "Folder indexing") command.argument)
    | .replaceRoot =>
      some (g.executeRootCommand host .replaceRoots (lit "Search-folder change") command.argument)
    | .reindex =>
      some (g.startForCommand host { shardCount := shardCount command.argument } (lit "Index rebuild"))
    | .showRoots => some (g.refreshQuery host)
    | .noCommand => none

/-- A terminal that does not open shows a message before the command is cleared. -/
def openAgent (g : Gui W σ) : Gui W σ :=
  if host.opensAgent g.world then g.clearCommand host else g.push (.message .clearCommand)

/-- `none` when the query is no agent command. -/
def executeAgentCommand (g : Gui W σ) : Option (Gui W σ) :=
  if (parseAgentCommand g.query .windows).isNone then none
  else
    match g.runtime with
    | none => some (g.openAgent host)
    | some client =>
      let ((_, error), client) := client.roots host.library
      let g := { g with runtime := some client }
      if !error.isEmpty then some (g.push (.message .nothing)) else some (g.openAgent host)

/-- Applies a family, then clears the command. Both refusals show a message. -/
def applyFontFamily (family : Bytes) (refused : AfterMessage) (g : Gui W σ) : Gui W σ :=
  if !host.fontInstalled g.world family then g.push (.message refused)
  else
    let (saved, world) := host.saveFont family g.world
    let g := { g with world := world }
    if saved then g.clearCommand host else g.push (.message .clearCommand)

def pickedFont (g : Gui W σ) : Option Bytes :=
  if g.fontPickerSelection < 0 then none
  else (builtinFontOptions[g.fontPickerSelection.toNat]?).map (·.family)

/-- `none` when Return goes on to the next command. -/
def executeFontCommand (g : Gui W σ) : Option (Gui W σ) :=
  let command := parseFontCommand g.query .windows
  if !command.isMatched then none
  else if command.showPicker then
    g.pickedFont.map fun family => g.applyFontFamily host family .returnRest
  else
    match command.requestedFamily with
    | some family => some (g.applyFontFamily host family .nothing)
    | none => some g

def runtimeHasRoots (g : Gui W σ) : Bool × Gui W σ :=
  match g.runtime with
  | none => (false, g)
  | some client =>
    let ((roots, error), client) := client.roots host.library
    let g := { g with runtime := some client }
    if !error.isEmpty then
      (false, { g with searchError := lit "Could not list search roots: " ++ error })
    else (!roots.isEmpty, g)

/-- Asks for a folder, if there is a runtime. -/
def chooseAndAddIndexRoot (preserveQuery : Bool) (g : Gui W σ) : Gui W σ :=
  if g.runtime.isNone then g else g.push (.folderForAdd preserveQuery)

/-- The rest of `choose_and_add_index_root` once its worker runs. -/
def finishAdd (preserveQuery : Bool) (g : Gui W σ) : Option (Gui W σ) := do
  let g := if preserveQuery then g else { g.setSearchText host [] with query := [] }
  let g := { g with suggestions := [], results := [] }
  let generation ← g.useGeneration host
  let (status, g) ← { g with runtimeGeneration := generation }.useStatus host
  return { g with runtimeIndexing := status.indexing }

def addRequest (root : Bytes) : IndexWorkerRequest := { operation := .addRoot, roots := [root] }

/-- The folder dialog of `choose_and_add_index_root` returned a folder. -/
def addChosenRoot (preserveQuery : Bool) (root : Bytes) (g : Gui W σ) : Option (Gui W σ) :=
  match g.startIndexWorker host (addRequest root) (lit "Folder indexing") with
  | (.started, g) => g.finishAdd host preserveQuery
  | (.refused, g) => some g
  | (.failed, g) => some (g.push (.message .nothing))

/-- Return behind the commands: without roots a folder is asked for, else the selected
row is opened. -/
def returnRest (g : Gui W σ) : Gui W σ :=
  if g.runtime.isNone then g
  else
    let (hasRoots, g) := g.runtimeHasRoots host
    if hasRoots then g else g.chooseAndAddIndexRoot !g.query.isEmpty

def returnKey (g : Gui W σ) : Gui W σ :=
  (g.executeAgentCommand host <|> g.executeFontCommand host <|> g.executeIndexCommand host).getD
    (g.returnRest host)

def mutateRow
    (call : Client σ → W → Except Bytes Unit × Client σ × W) (client : Client σ) (g : Gui W σ) :
    Gui W σ :=
  let (result, client, world) := call client g.world
  let g := { g with runtime := some client, world := world }
  match result with
  | .ok () => g.refreshQuery host
  | .error _ => g.push (.message .refresh)

def performAction (row : Int) (action : ResultAction) (g : Gui W σ) : Gui W σ :=
  if row < 0 then g
  else
    match g.results[row.toNat]? with
    | none => g
    | some item =>
      match action with
      | .toggleIndex =>
        if g.demo then
          { g with results := g.results.set row.toNat { item with indexed := !item.indexed } }
        else
          match g.runtime with
          | none => g
          | some client => g.mutateRow host
              (Client.setIndexed host.library host.look item.path !item.indexed) client
      | .togglePin =>
        if g.demo then
          { g with results := g.results.set row.toNat { item with pinned := !item.pinned } }
        else
          match g.runtime with
          | none => g
          | some client => g.mutateRow host
              (Client.setPinned host.library host.look item.path !item.pinned) client
      | .openLocation | .openProperties | .editAppearance => g

/-- A clicked suggestion of an index command is executed at once. -/
def autocompleteSuggestion (index : Nat) (activate : Bool) (g : Gui W σ) : Gui W σ :=
  match g.suggestions[index]? with
  | none => g
  | some suggestion =>
    let completed := beforeLastWord g.query ++ suggestion.token ++ [32]
    let g := (g.setSearchText host completed).refreshQuery host
    if activate && (suggestion.token == lit "/drive" || suggestion.token == lit "/index") &&
        !g.indexWorker.valid then (g.executeIndexCommand host).getD g
    else g

def fontPickerVisible (g : Gui W σ) : Bool :=
  (parseFontCommand g.query .windows).isMatched && (parseFontCommand g.query .windows).showPicker

def moveSelection (down : Bool) (g : Gui W σ) : Gui W σ :=
  if g.fontPickerVisible then
    { g with
      fontPickerSelection := if down then min 4 (g.fontPickerSelection + 1)
        else max 0 (g.fontPickerSelection - 1) }
  else if g.results.isEmpty then g
  else
    let last := (g.results.length : Int) - 1
    { g with
      selectedRow := if g.selectedRow < 0 then (if down then 0 else last)
        else ResponsiveLayout.clamp (g.selectedRow + (if down then 1 else -1)) 0 last }

/-- An empty result list under a query asks the runtime for its roots. -/
def paint (g : Gui W σ) : Option (Gui W σ) :=
  if !g.fontPickerVisible && !g.query.isEmpty && g.results.isEmpty && !g.demo &&
      g.searchError.isEmpty && !g.indexWorker.valid && g.runtime.isSome then do
    let (_, g) ← g.useStatus host
    return g
  else some g

def keepContent (status : RuntimeStatus) (g : Gui W σ) : Gui W σ :=
  if status.generation ≠ g.runtimeGeneration ∨ status.indexedFiles ≠ g.runtimeIndexedFiles then
    { g with
      runtimeGeneration := status.generation
      runtimeIndexedFiles := status.indexedFiles }.refreshQuery host
  else g

def recordDailyFailure (g : Gui W σ) : Gui W σ :=
  let (saved, daily, world) :=
    DailyIndexRefresh.recordFailure host.persist (host.now g.world) g.dailyRefresh g.world
  let g := { g with dailyRefresh := daily, world := world }
  match saved with
  | .ok () => g
  | .error e => { g with searchError := appendError g.searchError e }

def dailyDue (status : RuntimeStatus) (g : Gui W σ) : Bool :=
  !g.smoke && !g.demo && g.dailyRefreshReady && !status.indexing &&
    DailyIndexRefresh.due (host.now g.world) true g.indexWorker.valid g.dailyRefresh

def startDaily (g : Gui W σ) : Gui W σ :=
  match g.startIndexWorker host {} (lit "Daily index refresh") with
  | (.started, g) => g
  | (.refused, g) => g.recordDailyFailure host
  | (.failed, g) => g.push (.message .recordFailure)

def refreshDaily (status : RuntimeStatus) (g : Gui W σ) : Option (Gui W σ) :=
  if !g.dailyDue host status then some g
  else do
    let ((roots, error), g) ← g.useRoots host
    return if error.isEmpty && !roots.isEmpty then g.startDaily host else g

/-- Follows what the runtime reports. -/
def followRuntime (g : Gui W σ) : Option (Gui W σ) :=
  if g.runtime.isNone then some g
  else do
    let (status, g) ← g.useStatus host
    let g := g.keepContent host status
    { g with runtimeIndexing := status.indexing }.refreshDaily host status

/-- While a worker runs only the reader's snapshot is followed. -/
def followSnapshot (g : Gui W σ) : Option (Gui W σ) :=
  if g.runtime.isNone then some g
  else do
    let (snapshot, g) ← g.useStatus host
    return g.keepContent host snapshot

def timer (g : Gui W σ) : Option (Gui W σ) :=
  let g := g.pollIndexWorkerAndReload host
  if g.indexWorker.valid then g.followSnapshot host else g.followRuntime host

def startStartupWorker (g : Gui W σ) : Gui W σ :=
  if g.startupReindexNeeded && !g.smoke && !g.demo then
    let g := { g with startupReindexNeeded := false }
    match g.startIndexWorker host {} (lit "Startup index rebuild") with
    | (.failed, g) => g.push (.message .nothing)
    | (_, g) => g
  else g

def afterMessage (next : AfterMessage) (g : Gui W σ) : Gui W σ :=
  match next with
  | .nothing => g
  | .clearCommand => g.clearCommand host
  | .returnRest => g.returnRest host
  | .recordFailure => g.recordDailyFailure host
  | .refresh => g.refreshQuery host
  | .startup => g.startStartupWorker host

/-- The innermost dialog is closed and its handler goes on. -/
def resume (chosen : Option Bytes) (g : Gui W σ) : Option (Gui W σ) :=
  match g.modals with
  | [] => some g
  | modal :: rest =>
    let g := { g with modals := rest }
    match modal, chosen with
    | .folderForAdd preserveQuery, some root => g.addChosenRoot host preserveQuery root
    | .folderForAdd _, none => some g
    | .folderForCommand operation action, some root =>
      some (g.startForCommand host { operation := operation, roots := [root] } action)
    | .folderForCommand _ _, none => some (g.clearCommand host)
    | .message next, _ => some (g.afterMessage host next)

def destroy (g : Gui W σ) : Gui W σ :=
  { g with runtime := none, indexWorker := closeIndexWorkerTicket g.indexWorker, quitting := true }

def clickFont (row : Nat) (g : Gui W σ) : Gui W σ :=
  if g.fontPickerVisible && decide (row < 5) then
    let g := { g with fontPickerSelection := row }
    (g.pickedFont.map fun family => g.applyFontFamily host family .nothing).getD g
  else g

/-- One message; `none` is the use of a null pointer. -/
def dispatch (event : Event) (g : Gui W σ) : Option (Gui W σ) :=
  match event with
  | .timer => g.timer host
  | .edited text => some (g.setSearchText host text)
  | .imeStart => some { g with inputGate := { g.inputGate with composing := true } }
  | .imeEnd => some { g with inputGate := { g.inputGate with composing := false } }
  | .refreshAfterIme => some (g.refreshCommittedEditInput host)
  | .returnKey => some (if g.inputGate.composing then g else g.returnKey host)
  | .tabKey => some (if g.inputGate.composing then g else g.autocompleteSuggestion host 0 false)
  | .closeTransient => some { g with suggestions := [] }
  | .moveSelection down => some (if g.inputGate.composing then g else g.moveSelection down)
  | .clickRow row => some { g with selectedRow := row }
  | .clickClear => some ((g.setSearchText host []).refreshQuery host)
  | .clickSuggestion index => some (g.autocompleteSuggestion host index true)
  | .clickFont row => some (g.clickFont host row)
  | .act row action => some (g.performAction host row action)
  | .paint => g.paint host
  | .destroy => some g.destroy
  | .returned chosen => g.resume host chosen

/-- A destroyed window handles nothing more, but its suspended handlers still return; a
window disabled by a dialog gets no input. -/
def ignores (event : Event) (g : Gui W σ) : Bool :=
  match event with
  | .returned _ => false
  | _ => g.quitting || (event.isInput && !g.modals.isEmpty)

def handle (event : Event) (g : Gui W σ) : Option (Gui W σ) :=
  if g.ignores event then some g else g.dispatch host event

/-- The roots are listed behind the first window; an error shows a message before the
startup worker is considered. -/
def openWindow (hold : Bool) (g : Gui W σ) : Option (Gui W σ) :=
  if g.smoke || hold || g.demo || g.runtime.isNone then some (g.startStartupWorker host)
  else do
    let ((_, error), g) ← g.useRoots host
    return if error.isEmpty then g.startStartupWorker host
      else { g with searchError := lit "Could not list search roots: " ++ error }.push
        (.message .startup)

def loadDaily (g : Gui W σ) : Gui W σ :=
  if g.smoke then g
  else
    match DailyIndexRefresh.load (host.dailyFile g.world) with
    | .ok daily => { g with dailyRefresh := daily, dailyRefreshReady := true }
    | .error _ => { g with dailyRefresh := {}, dailyRefreshReady := false }

/-- An idle runtime that is empty although it has roots will be rebuilt. -/
def takeStatus (status : RuntimeStatus) (g : Gui W σ) : Gui W σ :=
  { g with
    runtimeGeneration := status.generation
    runtimeIndexedFiles := status.indexedFiles
    runtimeIndexing := status.indexing
    startupReindexNeeded := !g.smoke && !status.indexing && status.indexedFiles == 0 &&
      !status.roots.isEmpty }

end Gui

/-- The process: at its message loop, or ended by the use of a null pointer. -/
inductive Process (W σ : Type) where
  | running (g : Gui W σ)
  | crashed

namespace Process
variable {W σ : Type} (host : Win32Host W σ)

def ofOption : Option (Gui W σ) → Process W σ
  | some g => .running g
  | none => .crashed

/-- One message in whatever state the outside has got into. -/
def step (p : Process W σ) (input : W × Event) : Option (Process W σ) :=
  match p with
  | .crashed => none
  | .running g =>
    if g.quitting && g.modals.isEmpty then none
    else some (ofOption ({ g with world := input.1 }.handle host input.2))

/-- The process at its message loop; `none` when the runtime cannot be loaded. -/
def startup (demo smoke hold : Bool) (w : W) : Option (Process W σ) :=
  let g : Gui W σ := { demo := demo, smoke := smoke && !hold, world := w }
  if demo then
    let results := ResultView.makeDemoResults host.zone [] .windows (host.now w)
    some (ofOption ({ g with results := results }.openWindow host hold))
  else
    match Client.load host.library host.look {} w with
    | (.error _, _, _) => none
    | (.ok (), client, world) =>
      let (status, client) := client.status host.library
      let g := { g with runtime := some client, world := world }
      some (ofOption (((g.takeStatus status).loadDaily host).openWindow host hold))

end Process
end Such.Win32Frontend
