import Such.Platform.Frontend

/-! The X11 frontend: its state, its handlers and its event loop. Drawing, fonts and the
programs it opens leave no trace in the state and are left out. Each handler is the
source's function with the state passed through. -/
namespace Such.X11Frontend
open ByteText CivilTime SearchDialect QueryCommands RuntimeClient IndexWorkerLauncher Frontend
open ResponsiveLayout SwipeActions

structure IndexRootCandidate where
  path : Bytes
  label : Bytes
deriving DecidableEq, Repr

structure X11Host (W σ : Type) extends Host W σ where
  indexRootAccessible : W → Bytes → Bool
  indexRootCandidates : W → List IndexRootCandidate
  steadyNow : W → ℚ
  sqrt : ℚ → ℚ
  allowLeadingSwipe : Bool

/-- `ensured` is a record kept for the proofs: one entry for each call that ran the
client's `ensure_ready`, true when a worker was tracked at that time. -/
structure UiState (W σ : Type) where
  query : Bytes := []
  inputGate : CommittedInputGate := {}
  results : List ResultItem := []
  suggestions : List Suggestion := []
  searchError : Bytes := []
  swipe : SwipeController
  selected : Int := -1
  demo : Bool
  smoke : Bool
  width : Int := 760
  height : Int := 600
  lastMotion : ℚ
  runtime : Client σ := {}
  startupWorkerRequest : Option IndexWorkerRequest := none
  indexWorker : IndexWorkerTicket := {}
  indexWorkerAction : Bytes := []
  dailyRefresh : DailyIndexRefresh := {}
  dailyStateReady : Bool := false
  runtimeGeneration : Nat := 0
  runtimeIndexedFiles : Nat := 0
  runtimeIndexing : Bool := false
  initialRootPicker : Bool := false
  scrollDip : ℚ := 0
  uiScale : ℚ := 1
  rootPickerKind : IndexCommandKind := .noCommand
  world : W
  ensured : List Bool := []

inductive KeySym where
  | escape
  | backSpace
  | tab
  | up
  | down
  | ret
  | kpEnter
  | letterI
  | letterL
  | letterP
  | other
deriving DecidableEq, Repr

/-- A looked-up key: its symbol (letters in either case), the text it commits and whether
Mod1 was held. -/
structure KeyPress where
  keysym : KeySym
  text : Bytes := []
  mod1 : Bool := false
deriving DecidableEq, Repr

/-- One round of the loop: the idle work, or one event of the display. -/
inductive Event where
  | idle
  | configure (width height : Int)
  | expose (count : Nat)
  | keyPress (key : KeyPress)
  | buttonPress (button : Nat) (x y : Int)
  | motion (x y : Int)
  | buttonRelease (button : Nat)
  | focusOut
  | clientMessage (deletesWindow : Bool)
  | other
deriving DecidableEq, Repr

def hasPrintableUtf8Commit (key : KeyPress) : Bool := key.text.head?.any (32 ≤ ·)

/-- The last byte goes, and with it the continuation bytes in front of it. -/
def popUtf8Codepoint (text : Bytes) : Bytes :=
  text.dropLast.rdropWhile fun b => b &&& 0xC0 == 0x80

def candidateItem (candidate : IndexRootCandidate) : ResultItem where
  path := candidate.path
  filename := candidate.label
  indexed := false

def scaleRect (r : RectF) (scale : ℚ) : RectF :=
  ⟨r.x * scale, r.y * scale, r.width * scale, r.height * scale⟩

def scaleMetrics (m : ResponsiveMetrics) (scale : ℚ) : ResponsiveMetrics where
  width := m.width * scale
  height := m.height * scale
  sidePadding := m.sidePadding * scale
  topPadding := m.topPadding * scale
  bottomPadding := m.bottomPadding * scale
  searchHeight := m.searchHeight * scale
  searchToResultsGap := m.searchToResultsGap * scale
  statusHeight := m.statusHeight * scale
  statusToResultsGap := m.statusToResultsGap * scale
  rowHeight := m.rowHeight * scale
  rowGap := m.rowGap * scale
  swipeActionWidth := m.swipeActionWidth * scale
  visibleResults := m.visibleResults

namespace UiState
variable {W σ : Type} (host : X11Host W σ)

def x11Layout (s : UiState W σ) : WindowLayout :=
  let scale := max (1 / 2) s.uiScale
  let plain := computeWindowLayout host.sqrt (s.width / scale) (s.height / scale)
  let m := scaleMetrics plain.metrics scale
  let viewport := scaleRect plain.resultsViewport scale
  let out : WindowLayout := ⟨m, scaleRect plain.search scale, scaleRect plain.status scale, viewport⟩
  let detail := splitDetail s.query
  if detail.active then
    let total := detail.refinements.length * (32 * scale + 6 * scale)
    let height := max 0 (viewport.height - total)
    { out with
      resultsViewport := { viewport with y := viewport.y + total, height := height }
      metrics := { m with visibleResults := visibleRows height m.rowHeight m.rowGap } }
  else out

def settleScroll (reset : Bool) (s : UiState W σ) : UiState W σ :=
  let scroll := if reset then 0 else s.scrollDip
  { s with scrollDip := clamp scroll 0 (maxResultScroll (s.x11Layout host) s.results.length) }

def hitRow (x y : Int) (s : UiState W σ) : Int :=
  let layout := s.x11Layout host
  let viewport := layout.resultsViewport
  let stride := layout.metrics.rowHeight + layout.metrics.rowGap
  if (x : ℚ) < viewport.x ∨ viewport.x + viewport.width ≤ x ∨ (y : ℚ) < viewport.y ∨
      viewport.y + viewport.height ≤ y then -1
  else if stride ≤ 0 then -1
  else
    let index := ((y - viewport.y + s.scrollDip) / stride).floor
    if index < 0 ∨ (s.results.length : Int) ≤ index then -1
    else
      let row := resultRowRect layout index.toNat s.scrollDip
      if row.y ≤ y ∧ y < row.y + row.height then index else -1

def ensureSelectedVisible (s : UiState W σ) : UiState W σ :=
  if s.selected < 0 then s
  else
    let layout := s.x11Layout host
    let viewport := layout.resultsViewport
    let row := resultRowRect layout s.selected.toNat s.scrollDip
    let scroll :=
      if row.y < viewport.y then s.selected * (layout.metrics.rowHeight + layout.metrics.rowGap)
      else if viewport.y + viewport.height < row.y + row.height then
        s.scrollDip + (row.y + row.height - (viewport.y + viewport.height))
      else s.scrollDip
    { s with scrollDip := clamp scroll 0 (maxResultScroll layout s.results.length) }

/-- The row and the action under a point of an open row's tray. -/
def hitSwipeAction (x y : Int) (s : UiState W σ) : Option (Int × ResultAction) :=
  let rowIndex := s.swipe.state.row
  if !s.swipe.isOpen then none
  else if rowIndex < 0 ∨ (s.results.length : Int) ≤ rowIndex then none
  else
    let layout := s.x11Layout host
    let row := resultRowRect layout rowIndex.toNat s.scrollDip
    if (y : ℚ) < row.y ∨ row.y + row.height ≤ y then none
    else
      let width := layout.metrics.swipeActionWidth
      let offset := s.swipe.state.offset
      let right := row.x + row.width
      let first := if s.swipe.state.side = .trailing then right - width * 3 else row.x
      let revealed :=
        if s.swipe.state.side = .trailing then max first (right + offset) ≤ x ∧ x < right
        else row.x ≤ x ∧ x < min (row.x + width * 3) (row.x + offset)
      let index := ((x - first) / width).floor
      if ¬ revealed ∨ index < 0 then none
      else ((actionsForSide s.swipe.state.side)[index.toNat]?).map (rowIndex, ·)

def rootItems (s : UiState W σ) : List ResultItem × UiState W σ :=
  let ((roots, error), runtime) := s.runtime.roots host.library
  let s := { s with runtime := runtime }
  if !error.isEmpty then ([], { s with searchError := lit "Could not list search roots: " ++ error })
  else (roots.map (rootItem .posix), s)

/-- Mounted filesystems stand in for drives. A picker of another kind starts unselected. -/
def showPicker (previous kind : IndexCommandKind) (s : UiState W σ) : UiState W σ :=
  let results := (host.indexRootCandidates s.world).map candidateItem
  let hint := if kind = .replaceRoot then "//drive /path/to/folder" else "//index /path/to/folder"
  { s with
    rootPickerKind := kind
    selected := if previous = kind then s.selected else -1
    results := results
    suggestions := if results.isEmpty then
        [suggest hint "No mounted folders detected; type a path explicitly"] else [] }

def showSearch (s : UiState W σ) : UiState W σ :=
  let now := host.now s.world
  if s.demo then { s with results := ResultView.makeDemoResults host.zone s.query .unixLike now }
  else if !s.runtime.available then
    { s with
      results := []
      searchError := if s.runtimeIndexing then lit "Indexing selected folder..."
        else lit "Search index is temporarily unavailable" }
  else
    let ((results, error), runtime) := s.runtime.search host.library host.zone .unixLike now s.query 0
    { s with results := results, searchError := error, runtime := runtime }

def showQuery (s : UiState W σ) : UiState W σ :=
  let fontCommand := parseFontCommand s.query .unixLike
  let indexCommand := parseIndexCommand s.query .unixLike
  let observed := s.runtime.observed host.library
  let previous := s.rootPickerKind
  let s := { s with searchError := [], rootPickerKind := .noCommand }
  let completed := { s with suggestions := autocomplete s.query .unixLike observed }
  if (parseAgentCommand s.query .unixLike).isSome then { s with results := [], suggestions := [] }
  else if fontCommand.isMatched then
    { s with
      results := []
      suggestions := if fontCommand.showPicker then
          builtinFontOptions.map (fun o => ⟨lit "//font " ++ o.aliasName, o.label⟩) ++
            [suggest "//font system" "System default"]
        else [] }
  else if indexCommand.isMatched then
    if (indexCommand.kind = .addRoot ∨ indexCommand.kind = .replaceRoot) ∧
        indexCommand.argument = none then
      s.showPicker host previous indexCommand.kind
    else if indexCommand.kind = .showRoots then
      let (rows, s) := completed.rootItems host
      { s with results := rows }
    else { completed with results := [] }
  else completed.showSearch host

/-- A picker does not select a row by itself. -/
def clampSelection (s : UiState W σ) : UiState W σ :=
  let selected :=
    if s.results.isEmpty then -1
    else if s.rootPickerKind ≠ .noCommand ∧ s.selected < 0 then -1
    else clamp s.selected 0 ((s.results.length : Int) - 1)
  { s with selected := selected }

def closeSwipe (s : UiState W σ) : UiState W σ := { s with swipe := s.swipe.close }

def refreshQuery (resetScroll : Bool) (s : UiState W σ) : UiState W σ :=
  (((s.showQuery host).clampSelection).settleScroll host resetScroll).closeSwipe

def loadRuntime (s : UiState W σ) : Except Bytes Unit × UiState W σ :=
  let (result, runtime, world) := s.runtime.load host.library host.look s.world
  (result, { s with
    runtime := runtime, world := world, ensured := s.ensured ++ [s.indexWorker.valid] })

/-- Records an outcome of the daily refresh, when its state could be loaded. -/
def recordDaily
    (record : (Bytes → W → Except Bytes Unit × W) → Int → DailyIndexRefresh → W →
      Except Bytes Unit × DailyIndexRefresh × W)
    (s : UiState W σ) : UiState W σ :=
  if s.dailyStateReady then
    let (saved, daily, world) := record host.persist (host.now s.world) s.dailyRefresh s.world
    let s := { s with dailyRefresh := daily, world := world }
    match saved with
    | .ok () => s
    | .error e => { s with searchError := lit "Daily index refresh state: " ++ e }
  else s

def readStatus (s : UiState W σ) : RuntimeStatus × UiState W σ :=
  let (status, runtime) := s.runtime.status host.library
  (status, { s with runtime := runtime })

def keepStatus (status : RuntimeStatus) (s : UiState W σ) : UiState W σ :=
  { s with
    runtimeGeneration := status.generation
    runtimeIndexedFiles := status.indexedFiles
    runtimeIndexing := status.indexing }

/-- After a successful reload: the status is shown, the query refreshed and the outcome
of the worker recorded. -/
def reportIndexWorker (workerExitCode : Int) (s : UiState W σ) : UiState W σ :=
  let (status, s) := s.readStatus host
  let s := (s.keepStatus status).refreshQuery host false
  let failed := decide (workerExitCode ≠ 0) || status.indexing || !status.lastError.isEmpty
  let failure :=
    if !status.lastError.isEmpty then status.lastError
    else if s.indexWorkerAction.isEmpty then lit "Background indexing failed"
    else s.indexWorkerAction ++ lit " failed"
  let s := if failed then { s with searchError := failure } else s
  let s := s.recordDaily host
    (if failed then DailyIndexRefresh.recordFailure else DailyIndexRefresh.recordSuccess)
  { s with indexWorkerAction := [] }

def reloadRuntimeAfterIndexWorker (workerExitCode : Int) (s : UiState W σ) : UiState W σ :=
  match s.loadRuntime host with
  | (.error e, s) =>
    { s with
      runtimeIndexing := false
      searchError := lit "Could not reload Such index after background worker: " ++ e }
  | (.ok (), s) => s.reportIndexWorker host workerExitCode

/-- The poll of a tracked worker, with its exit code. -/
def pollTracked (s : UiState W σ) : (IndexWorkerPoll × Int) × UiState W σ :=
  let (waited, world) := host.wait s.indexWorker.nativeProcess s.world
  let (poll, exitCode, ticket) := pollIndexWorker waited s.indexWorker
  ((poll, exitCode), { s with indexWorker := ticket, world := world })

def pollIndexWorkerLinux (s : UiState W σ) : UiState W σ :=
  if !s.indexWorker.valid then s
  else
    match s.pollTracked host with
    | ((.running, _), s) => s
    | ((_, exitCode), s) => s.reloadRuntimeAfterIndexWorker host exitCode

/-- The runtime is released before the worker opens the same state, and reloaded when
the launch fails. -/
def launchIndexWorker (request : IndexWorkerRequest) (action : Bytes) (s : UiState W σ) :
    Except Bytes Unit × UiState W σ :=
  let (site, world) := host.launchSite s.world
  let (launched, ticket) := launchIndexWorkerTracked .unixLike site request s.indexWorker
  let s := { s with
    runtime := s.runtime.unload, results := [], suggestions := [], world := world,
    indexWorker := ticket }
  match launched with
  | .error launchError =>
    let (reloaded, s) := s.loadRuntime host
    let reloadError : Bytes := match reloaded with
      | .ok () => []
      | .error e => e
    (.error (if !launchError.isEmpty then launchError
      else if !reloadError.isEmpty then reloadError
      else lit "Could not start background indexing"),
      { s with runtimeIndexing := false })
  | .ok () =>
    let s := { s with indexWorkerAction := action }.recordDaily host DailyIndexRefresh.recordAttempt
    (.ok (), { s with runtimeIndexing := true })

def startIndexWorkerLinux (request : IndexWorkerRequest) (action : Bytes) (s : UiState W σ) :
    Except Bytes Unit × UiState W σ :=
  if s.indexWorker.valid then
    match s.pollTracked host with
    | ((.running, _), s) => (.error (lit "Such is already indexing another drive or folder"), s)
    | ((_, exitCode), s) =>
      (s.reloadRuntimeAfterIndexWorker host exitCode).launchIndexWorker host request action
  else s.launchIndexWorker host request action

/-- A change of one row's flag through the client, which loads the runtime on demand. -/
def mutateRow
    (call : Client σ → W → Except Bytes Unit × Client σ × W) (s : UiState W σ) : UiState W σ :=
  let (_, runtime, world) := call s.runtime s.world
  { s with runtime := runtime, world := world, ensured := s.ensured ++ [s.indexWorker.valid] }
    |>.refreshQuery host false

def performAction (row : Int) (action : ResultAction) (s : UiState W σ) : UiState W σ :=
  if row < 0 then s
  else
    match s.results[row.toNat]? with
    | none => s
    | some item =>
      let s := match action with
        | .toggleIndex =>
          if s.demo then
            { s with results := s.results.set row.toNat { item with indexed := !item.indexed } }
          else s.mutateRow host (Client.setIndexed host.library host.look item.path !item.indexed)
        | .togglePin =>
          if s.demo then
            { s with results := s.results.set row.toNat { item with pinned := !item.pinned } }
          else s.mutateRow host (Client.setPinned host.library host.look item.path !item.pinned)
        | .openLocation | .openProperties | .editAppearance => s
      s.closeSwipe

def completeFirst (s : UiState W σ) : UiState W σ :=
  match s.suggestions with
  | [] => s
  | first :: _ =>
    { s with query := beforeLastWord s.query ++ first.token ++ [32] }.refreshQuery host true

/-- `none` when the query is no agent command. -/
def executeAgentCommandLinux (s : UiState W σ) : Option (UiState W σ) :=
  if (parseAgentCommand s.query .unixLike).isSome then
    let ((_, error), runtime) := s.runtime.roots host.library
    let s := { s with runtime := runtime }
    if !error.isEmpty then
      some { s with searchError := lit "Could not determine AI working directory: " ++ error }
    else some ({ s with query := [], suggestions := [] }.refreshQuery host true)
  else none

def executeFontCommandLinux (s : UiState W σ) : Option (UiState W σ) :=
  let command := parseFontCommand s.query .unixLike
  if command.isMatched && !command.showPicker && command.requestedFamily.isSome then
    some ({ s with query := [] }.refreshQuery host true)
  else none

def selectedItem (s : UiState W σ) : Option ResultItem :=
  if s.selected < 0 then none else s.results[s.selected.toNat]?

/-- The root a command names, or the row selected in its own picker. -/
def commandRoot (command : IndexCommand) (s : UiState W σ) : Option Bytes :=
  match command.argument with
  | some path => some path
  | none =>
    if s.rootPickerKind = command.kind then s.selectedItem.map (·.path) else none

def refuseCommand (message : Bytes) (s : UiState W σ) : UiState W σ :=
  { s with suggestions := [⟨s.query, message⟩] }

def executeRootCommand (command : IndexCommand) (s : UiState W σ) : UiState W σ :=
  match s.commandRoot command with
  | none => s.refreshQuery host false
  | some root =>
    if !host.indexRootAccessible s.world root then
      s.refuseCommand (lit "Folder is not mounted or current user lacks read/search permission")
    else
      let adds := decide (command.kind = .addRoot)
      match s.startIndexWorkerLinux host
          { operation := if adds then .addRoot else .replaceRoots, roots := [root] }
          (if adds then lit "Folder indexing" else lit "Search-folder change") with
      | (.error error, s) =>
        s.refuseCommand
          (if error.isEmpty then lit "Could not start search-folder indexing" else error)
      | (.ok (), s) =>
        { s with
          initialRootPicker := false, query := [], results := [], suggestions := [],
          rootPickerKind := .noCommand, selected := -1, scrollDip := 0 }

def executeReindexCommand (s : UiState W σ) : UiState W σ :=
  match s.startIndexWorkerLinux host {} (lit "Index rebuild") with
  | (.error error, s) =>
    s.refuseCommand (if error.isEmpty then lit "Could not start index rebuild" else error)
  | (.ok (), s) => { s with query := [], results := [], suggestions := [], scrollDip := 0 }

def executeIndexCommandLinux (s : UiState W σ) : Option (UiState W σ) :=
  let command := parseIndexCommand s.query .unixLike
  match command.kind with
  | .addRoot | .replaceRoot => some (s.executeRootCommand host command)
  | .reindex => some (s.executeReindexCommand host)
  | .showRoots => some (s.refreshQuery host true)
  | .noCommand => none

/-- Drawing reads the runtime's status. -/
def draw (s : UiState W σ) : UiState W σ := if s.demo then s else (s.readStatus host).2

def acceptQuery (query : Bytes) (s : UiState W σ) : UiState W σ :=
  let (changed, gate) := s.inputGate.accept query
  let s := { s with query := query, inputGate := gate }
  if changed then s.refreshQuery host true else s

/-- The action a Mod1 shortcut asks for on the selected row. -/
def shortcut (key : KeyPress) (s : UiState W σ) : Option (Int × ResultAction) :=
  if key.mod1 && s.selectedItem.isSome then
    match key.keysym with
    | .letterL => some (s.selected, .openLocation)
    | .letterI => some (s.selected, .toggleIndex)
    | .letterP => some (s.selected, .togglePin)
    | _ => none
  else none

def typedKey (key : KeyPress) (s : UiState W σ) : UiState W σ :=
  match s.shortcut key with
  | some (row, action) => s.performAction host row action
  | none => if hasPrintableUtf8Commit key then s.acceptQuery host (s.query ++ key.text) else s

/-- Return runs the first command the query stands for, and opens the selected row
otherwise. -/
def returnKey (key : KeyPress) (s : UiState W σ) : UiState W σ :=
  match s.executeAgentCommandLinux host <|> s.executeFontCommandLinux host <|>
      s.executeIndexCommandLinux host with
  | some s => s
  | none => if s.selectedItem.isSome then s else s.typedKey host key

def controlKey (keysym : KeySym) : Bool :=
  match keysym with
  | .ret | .kpEnter | .escape | .tab | .up | .down | .backSpace => true
  | _ => false

/-- `none` when the key quits. -/
def keyPress (key : KeyPress) (s : UiState W σ) : Option (UiState W σ) :=
  if hasPrintableUtf8Commit key && controlKey key.keysym then
    -- The key that commits a composition is consumed by it.
    some (s.acceptQuery host (s.query ++ key.text))
  else
    match key.keysym with
    | .escape =>
      if s.swipe.isOpen || !s.suggestions.isEmpty then some { s.closeSwipe with suggestions := [] }
      else none
    | .backSpace =>
      if s.query.isEmpty then some (s.typedKey host key)
      else some (s.acceptQuery host (popUtf8Codepoint s.query))
    | .tab => some (s.completeFirst host)
    | .down =>
      if s.results.isEmpty then some (s.typedKey host key)
      else some ({ s with
        selected := min (s.selected + 1) ((s.results.length : Int) - 1) }.ensureSelectedVisible host)
    | .up =>
      if s.results.isEmpty then some (s.typedKey host key)
      else some ({ s with
        selected := if s.selected ≤ 0 then 0 else s.selected - 1 }.ensureSelectedVisible host)
    | .ret | .kpEnter => some (s.returnKey host key)
    | _ => some (s.typedKey host key)

def wheel (up : Bool) (s : UiState W σ) : UiState W σ :=
  let layout := s.x11Layout host
  let step := (layout.metrics.rowHeight + layout.metrics.rowGap) * (5 / 2)
  let scroll := if up then s.scrollDip - step else s.scrollDip + step
  { s with scrollDip := clamp scroll 0 (maxResultScroll layout s.results.length) }.closeSwipe

def beginSwipe (row x y : Int) (s : UiState W σ) : UiState W σ :=
  let m := computeResponsiveMetrics host.sqrt s.width s.height
  let swipe := s.swipe.setActionTrayWidth (m.swipeActionWidth * 3)
  { s with
    selected := row
    swipe := swipe.start row (x / s.uiScale) (y / s.uiScale)
    lastMotion := host.steadyNow s.world }

def firstButton (x y : Int) (s : UiState W σ) : UiState W σ :=
  match s.hitSwipeAction host x y with
  | some (row, action) => s.performAction host row action
  | none =>
    let row := s.hitRow host x y
    if 0 ≤ row then s.beginSwipe host row x y else s.closeSwipe

def buttonPress (button : Nat) (x y : Int) (s : UiState W σ) : UiState W σ :=
  if button = 4 ∨ button = 5 then (s.wheel host (button = 4)).draw host
  else if button ≠ 1 then s
  else (s.firstButton host x y).draw host

def motion (x y : Int) (s : UiState W σ) : UiState W σ :=
  if !s.swipe.state.dragging then s
  else
    let now := host.steadyNow s.world
    let dt := max (1 / 1000) (now - s.lastMotion)
    { s with
      lastMotion := now
      swipe := s.swipe.update (x / s.uiScale) (y / s.uiScale) dt }.draw host

def buttonRelease (button : Nat) (s : UiState W σ) : UiState W σ :=
  if button ≠ 1 ∨ s.swipe.state.dragging = false then s
  else
    let row := s.swipe.state.row
    let (action, swipe) := s.swipe.finish (s.width / s.uiScale)
    let s := { s with swipe := swipe }
    match action with
    | some action => (s.performAction host row action).draw host
    | none => s.draw host

/-- Follows what the runtime reports, and refreshes an active query. -/
def followRuntime (s : UiState W σ) : UiState W σ :=
  if s.demo || !s.runtime.available then s
  else
    let (status, s) := s.readStatus host
    let contentChanged := decide (status.generation ≠ s.runtimeGeneration) ||
      decide (status.indexedFiles ≠ s.runtimeIndexedFiles)
    if contentChanged || status.indexing != s.runtimeIndexing then
      let s := s.keepStatus status
      let s := if !s.query.isEmpty && contentChanged then s.refreshQuery host false else s
      s.draw host
    else s

def dailyDue (s : UiState W σ) : Bool :=
  !s.demo && !s.smoke && s.dailyStateReady && s.runtime.available && !s.indexWorker.valid &&
    !s.runtimeIndexing && DailyIndexRefresh.due (host.now s.world) true false s.dailyRefresh

def refreshDaily (s : UiState W σ) : UiState W σ :=
  if !s.dailyDue host then s
  else
    let ((roots, error), runtime) := s.runtime.roots host.library
    let s := { s with runtime := runtime }
    if !error.isEmpty || roots.isEmpty then s
    else
      match s.startIndexWorkerLinux host {} (lit "Daily index refresh") with
      | (.ok (), s) => s.draw host
      | (.error e, s) =>
        let s := { s with searchError := lit "Daily index refresh failed: " ++ e }
        let (_, daily, world) := DailyIndexRefresh.recordFailure host.persist (host.now s.world)
          s.dailyRefresh s.world
        { s with dailyRefresh := daily, world := world }

/-- The poll of the worker redraws when it ended. -/
def idle (s : UiState W σ) : UiState W σ :=
  let polled := s.pollIndexWorkerLinux host
  let s := if s.indexWorker.valid && !polled.indexWorker.valid then polled.draw host else polled
  (s.followRuntime host).refreshDaily host

/-- `none` when the loop ends. -/
def handle (event : Event) (s : UiState W σ) : Option (UiState W σ) :=
  match event with
  | .idle => some (s.idle host)
  | .configure width height => some ({ s with width := width, height := height }.closeSwipe.draw host)
  | .expose count =>
    if count ≠ 0 then some s
    else if s.smoke then none
    else some (s.draw host)
  | .keyPress key => (s.keyPress host key).map (draw host)
  | .buttonPress button x y => some (s.buttonPress host button x y)
  | .motion x y => some (s.motion host x y)
  | .buttonRelease button => some (s.buttonRelease host button)
  | .focusOut => some s.closeSwipe
  | .clientMessage deletesWindow => if deletesWindow then none else some s
  | .other => some s

/-- A round starts in whatever state the outside has got into. -/
def step (s : UiState W σ) (input : W × Event) : Option (UiState W σ) :=
  { s with world := input.1 }.handle host input.2

/-- A launch without an accessible root opens the picker. -/
def askForRoot (fresh : Bool) (s : UiState W σ) : UiState W σ :=
  let s := { s with initialRootPicker := fresh }
  if fresh then { s with query := lit "//drive" }.refreshQuery host true else s

/-- The roots a launch wants are those still accessible. A changed root set is repaired
through the worker. -/
def prepareStartupIndexRoots (s : UiState W σ) : UiState W σ :=
  let ((persisted, error), runtime) := s.runtime.roots host.library
  let s := { s with runtime := runtime }
  if !error.isEmpty then s
  else
    let valid := persisted.filter (host.indexRootAccessible s.world)
    let repair : IndexWorkerRequest := { operation := .replaceRoots, roots := valid }
    let s := s.askForRoot host valid.isEmpty
    if valid ≠ persisted then { s with startupWorkerRequest := some repair } else s

def loadDaily (s : UiState W σ) : UiState W σ :=
  match DailyIndexRefresh.load (host.dailyFile s.world) with
  | .ok daily => { s with dailyRefresh := daily, dailyStateReady := true }
  | .error _ => { s with dailyRefresh := {}, dailyStateReady := false }

/-- A runtime that is idle and empty although it has roots is rebuilt. -/
def readStartupStatus (s : UiState W σ) : UiState W σ :=
  let (status, s) := s.readStatus host
  let s := s.keepStatus status
  if !s.smoke && s.startupWorkerRequest.isNone && !status.indexing && status.indexedFiles == 0 &&
      !status.roots.isEmpty then { s with startupWorkerRequest := some {} }
  else s

def startStartupWorker (s : UiState W σ) : UiState W σ :=
  match s.startupWorkerRequest with
  | none => s
  | some request =>
    let s := match s.startIndexWorkerLinux host request (lit "Startup root repair") with
      | (.ok (), s) => s
      | (.error e, s) => { s with searchError := lit "Could not start background indexing: " ++ e }
    { s with startupWorkerRequest := none }

/-- The window's size in pixels at a display's scale. -/
def openWindow (uiScale : ℚ) (s : UiState W σ) : UiState W σ :=
  { s with
    uiScale := uiScale
    width := (760 * uiScale + 1 / 2).floor
    height := (600 * uiScale + 1 / 2).floor }

def constructed (demo smoke : Bool) (w : W) : UiState W σ where
  swipe := SwipeController.construct 216 host.allowLeadingSwipe
  demo := demo
  smoke := smoke
  lastMotion := host.steadyNow w
  world := w

/-- The state the loop starts in; `none` when the runtime cannot be loaded. -/
def startup (demo smoke : Bool) (uiScale : ℚ) (w : W) : Option (UiState W σ) :=
  let s := constructed host demo smoke w
  if demo then some ((s.refreshQuery host true).openWindow uiScale |>.startStartupWorker host)
  else
    match s.loadRuntime host with
    | (.error _, _) => none
    | (.ok (), s) =>
      let s := if smoke then s else (s.loadDaily host).prepareStartupIndexRoots host
      some (((s.readStartupStatus host).openWindow uiScale).startStartupWorker host)

end UiState
end Such.X11Frontend
