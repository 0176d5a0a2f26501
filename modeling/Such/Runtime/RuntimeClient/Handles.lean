import Such.Runtime.RuntimeClient.Lifecycle

/-! The handles behind a client: the opened library, the runtime it created and the functions
bound from it, over every history of loads, implicit loads and unloads. -/
namespace Such.RuntimeClient
open ByteText

/-- The function pointers of a loaded client. -/
inductive Slot where
  | abiVersion
  | create
  | destroy
  | load
  | lastError
  | addRoot
  | removeRoot
  | replaceRoots
  | listRoots
  | listExtensions
  | reindexAsync
  | waitForIdle
  | search
  | searchContent
  | setPinned
  | setIndexed
  | status
  | engineStats
  | generation
deriving DecidableEq, Repr

/-- The symbols a library must export, in the order they are bound. -/
def mandatorySymbols : List (Slot × Bytes) := [
  (.abiVersion, lit "such_runtime_abi_version"),
  (.create, lit "such_runtime_create_v1"),
  (.destroy, lit "such_runtime_destroy_v1"),
  (.load, lit "such_runtime_load_v1"),
  (.lastError, lit "such_runtime_last_error_v1"),
  (.addRoot, lit "such_runtime_add_root_v1"),
  (.removeRoot, lit "such_runtime_remove_root_v1"),
  (.replaceRoots, lit "such_runtime_replace_roots_v1"),
  (.listRoots, lit "such_runtime_list_roots_v1"),
  (.listExtensions, lit "such_runtime_list_extensions_v1"),
  (.reindexAsync, lit "such_runtime_reindex_async_v1"),
  (.waitForIdle, lit "such_runtime_wait_for_idle_v1"),
  (.search, lit "such_runtime_search_v1"),
  (.setPinned, lit "such_runtime_set_pinned_v1"),
  (.setIndexed, lit "such_runtime_set_indexed_v1"),
  (.status, lit "such_runtime_status_v1_fn"),
  (.engineStats, lit "such_runtime_engine_stats_v1_fn"),
  (.generation, lit "such_runtime_generation_v1")]

/-- What the system did for a client. Handles and addresses may be used again later. -/
inductive HandleEvent where
  | opened (library : Nat)
  | created (runtime : Nat)
  | destroyed (runtime : Nat)
  | closed (library : Nat)
deriving DecidableEq, Repr

/-- What one load meets: the path it resolves, what opening yields, the symbols the library
exports and what its functions answer. A missing handle is a null pointer. -/
structure Attempt where
  libraryPath : Bytes
  opened : Option Nat
  symbol : Bytes → Option Nat
  abiVersion : UInt32 := 1
  created : Option Nat
  loads : Bool := true
  lastError : Bytes := []

structure Handles where
  readOnly : Bool
  error : Bytes := []
  library : Option Nat := none
  runtime : Option Nat := none
  ready : Bool := false
  bound : Slot → Option Nat := fun _ => none
  trace : List HandleEvent := []

namespace Handles

def setSlot (s : Handles) (slot : Slot) (address : Option Nat) : Handles :=
  { s with bound := fun other => if other = slot then address else s.bound other }

def logged (s : Handles) (events : List HandleEvent) : Handles :=
  { s with trace := s.trace ++ events }

/-- The runtime goes first, through its own library's function. -/
def resetLoadedState (s : Handles) : Handles :=
  let s := if (s.bound .destroy).isSome then s.logged (s.runtime.map .destroyed).toList else s
  let s := { s with runtime := none, ready := false }
  let s := s.logged (s.library.map .closed).toList
  { s with library := none, bound := fun _ => none }

def failAndReset (message : Bytes) (s : Handles) : Bool × Handles :=
  (false, { s.resetLoadedState with error := message })

def bind (symbol : Bytes → Option Nat) (slot : Slot) (name : Bytes) (s : Handles) : Bool × Handles :=
  match symbol name with
  | none => (false, { s with error := lit "missing runtime ABI symbol: " ++ name })
  | some address => (true, s.setSlot slot (some address))

/-- The first symbol that does not bind ends the chain. -/
def bindAll (symbol : Bytes → Option Nat) : List (Slot × Bytes) → Handles → Bool × Handles
  | [], s => (true, s)
  | entry :: rest, s =>
    let step := s.bind symbol entry.1 entry.2
    if step.1 then bindAll symbol rest step.2 else step

def bindOptional (symbol : Bytes → Option Nat) (slot : Slot) (name : Bytes) (s : Handles) : Handles :=
  s.setSlot slot (symbol name)

/-- The factory of a read-only client is one more symbol; a missing one unbinds the slot. -/
def chooseFactory (a : Attempt) (s : Handles) : Handles :=
  if s.readOnly then s.bindOptional a.symbol .create (lit "such_runtime_create_readonly_v1") else s

/-- Behind the mandatory symbols: the version, the factory and the runtime itself. -/
def createRuntime (a : Attempt) (s : Handles) : Bool × Handles :=
  if a.abiVersion ≠ 1 then failAndReset (lit "Such private runtime ABI version mismatch") s
  else
    let s := s.chooseFactory a
    if s.readOnly ∧ s.bound .create = none then
      failAndReset (lit "This runtime does not support filename snapshots during indexing") s
    else
      match a.created with
      | none => failAndReset (lit "Such private runtime could not be created") s
      | some runtime => (true, { s with runtime := some runtime }.logged [.created runtime])

def ensureLoaded (a : Attempt) (s : Handles) : Bool × Handles :=
  if s.runtime.isSome then (true, s)
  else if a.libraryPath.isEmpty then
    (false, { s with
      error := lit "Such could not resolve its executable directory for runtime discovery" })
  else
    match a.opened with
    | none => (false, { s with
        library := none
        error := lit "Such private runtime is not installed. Expected: " ++ a.libraryPath })
    | some library =>
      let step := ({ s with library := some library }.logged [.opened library]).bindAll a.symbol
        mandatorySymbols
      if !step.1 then failAndReset step.2.error step.2
      else createRuntime a
        (step.2.bindOptional a.symbol .searchContent (lit "such_runtime_search_content_v1"))

def abiError (a : Attempt) (s : Handles) : Bytes :=
  if s.runtime.isSome ∧ (s.bound .lastError).isSome then cstr a.lastError else []

def ensureReady (a : Attempt) (s : Handles) : Bool × Handles :=
  if s.ready then (true, s)
  else
    let step := s.ensureLoaded a
    if !step.1 then step
    else if !a.loads then
      failAndReset (callError (step.2.abiError a) (lit "Such private runtime could not be loaded"))
        step.2
    else (true, { step.2 with ready := true, error := [] })

def runtimeError (a : Attempt) (s : Handles) : Bytes :=
  if !s.error.isEmpty then s.error else s.abiError a

def load (a : Attempt) (s : Handles) : Except Bytes Unit × Handles :=
  let step := s.ensureReady a
  (if step.1 then .ok () else .error (step.2.runtimeError a), step.2)

def unload (s : Handles) : Handles := { s.resetLoadedState with error := [] }

/-- A mutating call loads the client first; what its function answers moves the error text
only. -/
def mutate (a : Attempt) (answer : Bool) (s : Handles) : Handles :=
  let step := s.ensureReady a
  if step.1 && answer then { step.2 with error := [] } else step.2

def destruct (s : Handles) : Handles := s.resetLoadedState

end Handles

inductive HandleCall where
  | load (a : Attempt)
  | mutate (a : Attempt) (answer : Bool)
  | unload

namespace Handles

def perform (s : Handles) : HandleCall → Handles
  | .load a => (s.load a).2
  | .mutate a answer => s.mutate a answer
  | .unload => s.unload

/-- A constructed client after a history of calls. -/
def after (readOnly : Bool) (calls : List HandleCall) : Handles :=
  calls.foldl perform { readOnly := readOnly }

end Handles

/-- One opening of the library from beginning to end, with the runtime it may have created. -/
structure LibrarySession where
  library : Nat
  runtime : Option Nat

def LibrarySession.events (session : LibrarySession) : List HandleEvent :=
  [.opened session.library] ++
    (session.runtime.toList.flatMap fun runtime => [.created runtime, .destroyed runtime]) ++
    [.closed session.library]

namespace Handles

/-- The events of what is still held. -/
def pending (s : Handles) : List HandleEvent :=
  (s.library.map .opened).toList ++ (s.runtime.map .created).toList

/-- Everything ever opened or created was given back in order, but for what is still held; a
held runtime can be given back, and so can its library. -/
structure Accounted (s : Handles) : Prop where
  releasable : s.runtime.isSome → s.library.isSome ∧ (s.bound .destroy).isSome
  complete : ∃ sessions : List LibrarySession,
    s.trace = sessions.flatMap LibrarySession.events ++ s.pending

/-- Nothing is held and nothing is bound. -/
structure Empty (s : Handles) : Prop extends Accounted s where
  library : s.library = none
  runtime : s.runtime = none
  ready : s.ready = false
  slots : s.bound = fun _ => none

/-- A runtime is held and every mandatory function is bound. -/
structure Holding (s : Handles) : Prop extends Accounted s where
  library : s.library.isSome
  runtime : s.runtime.isSome
  slots : ∀ entry ∈ mandatorySymbols, (s.bound entry.1).isSome

theorem resetLoadedState_eq (s : Handles) : s.resetLoadedState = {
    readOnly := s.readOnly
    error := s.error
    trace := s.trace ++ (if (s.bound .destroy).isSome then (s.runtime.map .destroyed).toList else []) ++
      (s.library.map .closed).toList } := by
  simp only [resetLoadedState]
  split <;> simp [logged]

theorem reset_empty {s : Handles} (accounted : s.Accounted) : s.resetLoadedState.Empty := by
  obtain ⟨releasable, sessions, complete⟩ := accounted
  rw [resetLoadedState_eq]
  refine ⟨⟨fun held => absurd held (by simp), ?_⟩, rfl, rfl, rfl, rfl⟩
  cases library : s.library with
  | none =>
    have idle : s.runtime = none := by
      cases runtime : s.runtime with
      | none => rfl
      | some r => simp [runtime, library] at releasable
    exact ⟨sessions, by simp [complete, pending, library, idle]⟩
  | some l =>
    refine ⟨sessions ++ [⟨l, s.runtime⟩], ?_⟩
    cases runtime : s.runtime with
    | none => simp [complete, pending, library, runtime, LibrarySession.events]
    | some r =>
      have bound : (s.bound .destroy).isSome := (releasable (by simp [runtime])).2
      simp [complete, pending, library, runtime, bound, LibrarySession.events]

theorem failAndReset_empty (message : Bytes) {s : Handles} (accounted : s.Accounted) :
    (failAndReset message s).2.Empty :=
  have reset := reset_empty accounted
  ⟨⟨reset.releasable, reset.complete⟩, reset.library, reset.runtime, reset.ready, reset.slots⟩

/-- Binding symbols moves slots and the error text only. -/
structure SameHandles (s t : Handles) : Prop where
  readOnly : t.readOnly = s.readOnly
  library : t.library = s.library
  runtime : t.runtime = s.runtime
  ready : t.ready = s.ready
  trace : t.trace = s.trace

section Binding
variable {symbol : Bytes → Option Nat} {entry : Slot × Bytes} {entries : List (Slot × Bytes)}

theorem bindAll_missing (missing : symbol entry.2 = none) (s : Handles) :
    s.bindAll symbol (entry :: entries) =
      (false, { s with error := lit "missing runtime ABI symbol: " ++ entry.2 }) := by
  simp [bindAll, bind, missing]

theorem bindAll_found {address : Nat} (found : symbol entry.2 = some address) (s : Handles) :
    s.bindAll symbol (entry :: entries) =
      (s.setSlot entry.1 (some address)).bindAll symbol entries := by
  simp [bindAll, bind, found]

theorem bindAll_same (symbol : Bytes → Option Nat) (entries : List (Slot × Bytes)) (s : Handles) :
    SameHandles s (s.bindAll symbol entries).2 := by
  induction entries generalizing s with
  | nil => exact ⟨rfl, rfl, rfl, rfl, rfl⟩
  | cons entry entries ih =>
    cases found : symbol entry.2 with
    | none =>
      rw [bindAll_missing found]
      exact ⟨rfl, rfl, rfl, rfl, rfl⟩
    | some address =>
      rw [bindAll_found found]
      have later := ih (s.setSlot entry.1 (some address))
      exact ⟨later.readOnly, later.library, later.runtime, later.ready, later.trace⟩

/-- A chain that binds to its end leaves every slot of the chain bound, and unbinds none. -/
theorem bindAll_bound {s : Handles} (all : (s.bindAll symbol entries).1 = true) {slot : Slot}
    (asked : (s.bound slot).isSome ∨ slot ∈ entries.map Prod.fst) :
    ((s.bindAll symbol entries).2.bound slot).isSome := by
  induction entries generalizing s with
  | nil => simpa [bindAll] using asked
  | cons entry entries ih =>
    cases found : symbol entry.2 with
    | none =>
      rw [bindAll_missing found] at all
      contradiction
    | some address =>
      rw [bindAll_found found] at all ⊢
      apply ih all
      by_cases own : slot = entry.1
      · left
        simp [setSlot, own]
      · rcases asked with already | listed
        · left
          simpa [setSlot, own] using already
        · right
          simpa [own] using listed

end Binding

/-- While a library is open and no runtime exists, what happens to slots and texts does not
touch the account. -/
theorem accounted_of_same {s t : Handles} (same : SameHandles s t) (idle : s.runtime = none)
    (accounted : s.Accounted) : t.Accounted := by
  obtain ⟨-, sessions, complete⟩ := accounted
  refine ⟨fun held => ?_, sessions, ?_⟩
  · rw [same.runtime, idle] at held
    contradiction
  · rw [same.trace, complete, pending, pending, same.library, same.runtime]

theorem setSlot_same (s : Handles) (slot : Slot) (address : Option Nat) :
    SameHandles s (s.setSlot slot address) := ⟨rfl, rfl, rfl, rfl, rfl⟩

theorem SameHandles.trans {s t u : Handles} (first : SameHandles s t) (second : SameHandles t u) :
    SameHandles s u :=
  ⟨second.readOnly.trans first.readOnly, second.library.trans first.library,
    second.runtime.trans first.runtime, second.ready.trans first.ready,
    second.trace.trans first.trace⟩

/-- The outcome of opening: a held runtime, or nothing. -/
structure Outcome (s : Handles) (step : Bool × Handles) : Prop where
  readOnly : step.2.readOnly = s.readOnly
  unready : step.2.ready = false
  holding : step.1 = true → step.2.Holding
  empty : step.1 = false → step.2.Empty

theorem failAndReset_outcome (message : Bytes) {s t : Handles} (same : t.readOnly = s.readOnly)
    (accounted : t.Accounted) : Outcome s (failAndReset message t) := by
  have empty := failAndReset_empty message accounted
  refine ⟨?_, empty.ready, fun done => ?_, fun _ => empty⟩
  · rw [← same]
    simp only [failAndReset, resetLoadedState_eq]
  · contradiction

theorem chooseFactory_same (a : Attempt) (s : Handles) : SameHandles s (s.chooseFactory a) := by
  simp only [chooseFactory]
  split
  · exact setSlot_same s _ _
  · exact ⟨rfl, rfl, rfl, rfl, rfl⟩

theorem chooseFactory_bound {a : Attempt} {s : Handles}
    (found : ¬((s.chooseFactory a).readOnly = true ∧ (s.chooseFactory a).bound .create = none))
    {slot : Slot} (bound : (s.bound slot).isSome) : ((s.chooseFactory a).bound slot).isSome := by
  have same := chooseFactory_same a s
  by_cases factory : slot = .create
  · cases reader : s.readOnly with
    | true =>
      rw [same.readOnly] at found
      rw [factory, Option.isSome_iff_ne_none]
      exact fun missing => found ⟨reader, missing⟩
    | false => simpa [chooseFactory, reader] using bound
  · simp only [chooseFactory]
    split
    · simpa [bindOptional, setSlot, factory] using bound
    · exact bound

theorem created_holding {s : Handles} (accounted : s.Accounted) (library : s.library.isSome)
    (idle : s.runtime = none) (slots : ∀ entry ∈ mandatorySymbols, (s.bound entry.1).isSome)
    (runtime : Nat) : ({ s with runtime := some runtime }.logged [.created runtime]).Holding := by
  obtain ⟨-, sessions, complete⟩ := accounted
  have destroy := slots (.destroy, lit "such_runtime_destroy_v1") (by simp [mandatorySymbols])
  refine ⟨⟨fun _ => ⟨library, destroy⟩, sessions, ?_⟩, library, rfl, slots⟩
  simp [logged, complete, pending, idle]

theorem createRuntime_outcome (a : Attempt) {s : Handles} (accounted : s.Accounted)
    (library : s.library.isSome) (idle : s.runtime = none) (unready : s.ready = false)
    (slots : ∀ entry ∈ mandatorySymbols, (s.bound entry.1).isSome) :
    Outcome s (s.createRuntime a) := by
  have same := chooseFactory_same a s
  have kept := accounted_of_same same idle accounted
  simp only [createRuntime]
  split
  · exact failAndReset_outcome _ rfl accounted
  · split
    · exact failAndReset_outcome _ same.readOnly kept
    · rename_i found
      split
      · exact failAndReset_outcome _ same.readOnly kept
      · rename_i runtime _
        have holding := created_holding kept (by rw [same.library]; exact library)
          (by rw [same.runtime]; exact idle)
          (fun entry member => chooseFactory_bound found (slots entry member)) runtime
        exact ⟨same.readOnly, same.ready.trans unready, fun _ => holding, fun failed => absurd failed (by simp)⟩

theorem Empty.withError {s : Handles} (empty : s.Empty) (e : Bytes) :
    { s with error := e }.Empty :=
  ⟨⟨empty.releasable, empty.complete⟩, empty.library, empty.runtime, empty.ready, empty.slots⟩

theorem Empty.unopened {s : Handles} (empty : s.Empty) : { s with library := none } = s := by
  rw [← empty.library]

theorem ensureLoaded_outcome (a : Attempt) {s : Handles} (empty : s.Empty) :
    Outcome s (s.ensureLoaded a) := by
  have failed : ∀ e, Outcome s (false, { s with error := e }) := fun e =>
    ⟨rfl, empty.ready, fun done => absurd done (by simp), fun _ => empty.withError e⟩
  have idle : ¬ s.runtime.isSome = true := by simp [empty.runtime]
  rw [ensureLoaded, if_neg idle]
  split
  · exact failed _
  · split
    · have unopened := empty.unopened
      exact (congrArg (fun t : Handles => Outcome s (false, { t with
        error := lit "Such private runtime is not installed. Expected: " ++ a.libraryPath }))
        unopened).mpr (failed _)
    · rename_i library _
      have opened : ({ s with library := some library }.logged [.opened library]).Accounted := by
        obtain ⟨sessions, complete⟩ := empty.complete
        refine ⟨fun held => absurd held (by simp [logged, empty.runtime]), sessions, ?_⟩
        simp [logged, complete, pending, empty.library, empty.runtime]
      have same := bindAll_same a.symbol mandatorySymbols
        ({ s with library := some library }.logged [.opened library])
      have bound := @bindAll_bound a.symbol mandatorySymbols
        ({ s with library := some library }.logged [.opened library])
      generalize ({ s with library := some library }.logged [.opened library]).bindAll a.symbol
        mandatorySymbols = step at same bound ⊢
      have kept := accounted_of_same same empty.runtime opened
      dsimp only
      split
      · exact failAndReset_outcome _ same.readOnly kept
      · rename_i all
        have all : step.1 = true := by simpa using all
        have extra := same.trans (setSlot_same step.2 .searchContent
          (a.symbol (lit "such_runtime_search_content_v1")))
        have outcome := createRuntime_outcome a (accounted_of_same extra empty.runtime opened)
          (by rw [extra.library]; rfl) (extra.runtime.trans empty.runtime)
          (extra.ready.trans empty.ready) ?_
        · exact ⟨outcome.readOnly.trans same.readOnly, outcome.unready, outcome.holding, outcome.empty⟩
        · intro entry member
          have other : entry.1 ≠ .searchContent := by
            have listed : ∀ entry ∈ mandatorySymbols, entry.1 ≠ .searchContent := by decide +kernel
            exact listed entry member
          have here := bound all (.inr (List.mem_map_of_mem member))
          simpa [setSlot, other] using here

/-- Between calls a client is ready with everything in its hands, or it holds nothing. -/
inductive Settled (s : Handles) : Prop where
  | ready (ready : s.ready = true) (holding : s.Holding)
  | empty (empty : s.Empty)

theorem ensureReady_of_ready (a : Attempt) {s : Handles} (ready : s.ready = true) :
    s.ensureReady a = (true, s) := by
  rw [ensureReady, if_pos ready]

/-- A load ends ready and holding, or empty; it answers by which. -/
theorem ensureReady_settled (a : Attempt) {s : Handles} (settled : s.Settled) :
    (s.ensureReady a).2.Settled ∧ (s.ensureReady a).1 = (s.ensureReady a).2.ready ∧
      (s.ensureReady a).2.readOnly = s.readOnly := by
  cases settled with
  | ready ready holding =>
    rw [ensureReady_of_ready a ready]
    exact ⟨.ready ready holding, ready.symm, rfl⟩
  | empty empty =>
    have unready : ¬ s.ready = true := by simp [empty.ready]
    have outcome := ensureLoaded_outcome a empty
    rw [ensureReady, if_neg unready]
    generalize s.ensureLoaded a = step at outcome ⊢
    obtain ⟨kept, unready, holding, idle⟩ := outcome
    dsimp only
    split
    · rename_i missed
      have missed : step.1 = false := by simpa using missed
      exact ⟨.empty (idle missed), by rw [missed, unready], kept⟩
    · rename_i opened
      have held := holding (by simpa using opened)
      split
      · have reset := failAndReset_empty (callError (step.2.abiError a)
          (lit "Such private runtime could not be loaded")) held.toAccounted
        refine ⟨.empty reset, reset.ready.symm, ?_⟩
        rw [← kept]
        simp only [failAndReset, resetLoadedState_eq]
      · exact ⟨.ready rfl ⟨⟨held.releasable, held.complete⟩, held.library, held.runtime, held.slots⟩,
          rfl, kept⟩

theorem Settled.withError {s : Handles} (settled : s.Settled) (e : Bytes) :
    { s with error := e }.Settled := by
  cases settled with
  | ready ready holding =>
    exact .ready ready ⟨⟨holding.releasable, holding.complete⟩, holding.library, holding.runtime,
      holding.slots⟩
  | empty empty => exact .empty (empty.withError e)

theorem Settled.accounted {s : Handles} (settled : s.Settled) : s.Accounted := by
  cases settled with
  | ready ready holding => exact holding.toAccounted
  | empty empty => exact empty.toAccounted

theorem perform_settled (call : HandleCall) {s : Handles} (settled : s.Settled) :
    (s.perform call).Settled ∧ (s.perform call).readOnly = s.readOnly := by
  cases call with
  | load a =>
    obtain ⟨loaded, -, kept⟩ := ensureReady_settled a settled
    exact ⟨loaded, kept⟩
  | mutate a answer =>
    obtain ⟨loaded, -, kept⟩ := ensureReady_settled a settled
    simp only [perform, mutate]
    split
    · exact ⟨loaded.withError [], kept⟩
    · exact ⟨loaded, kept⟩
  | unload =>
    refine ⟨.empty ((reset_empty settled.accounted).withError []), ?_⟩
    simp only [perform, unload, resetLoadedState_eq]

theorem fresh_empty (readOnly : Bool) : ({ readOnly := readOnly } : Handles).Empty :=
  ⟨⟨fun held => absurd held (by simp), [], rfl⟩, rfl, rfl, rfl, rfl⟩

theorem after_settled (readOnly : Bool) (calls : List HandleCall) :
    (after readOnly calls).Settled ∧ (after readOnly calls).readOnly = readOnly := by
  have general : ∀ (calls : List HandleCall) (s : Handles), s.Settled →
      (calls.foldl perform s).Settled ∧ (calls.foldl perform s).readOnly = s.readOnly := by
    intro calls
    induction calls with
    | nil => exact fun s settled => ⟨settled, rfl⟩
    | cons call calls ih =>
      intro s settled
      obtain ⟨next, kept⟩ := perform_settled call settled
      obtain ⟨last, same⟩ := ih _ next
      exact ⟨last, same.trans kept⟩
  exact general calls _ (.empty (fresh_empty readOnly))

/-- Two clients that differ in what happened before and in the text they hold. -/
structure Alike (history : List HandleEvent) (s t : Handles) : Prop where
  readOnly : t.readOnly = s.readOnly
  library : t.library = s.library
  runtime : t.runtime = s.runtime
  ready : t.ready = s.ready
  bound : t.bound = s.bound
  trace : t.trace = history ++ s.trace

/-- Two steps with one answer; a failure leaves one text. -/
structure StepAlike (history : List HandleEvent) (x y : Bool × Handles) : Prop where
  answer : y.1 = x.1
  alike : Alike history x.2 y.2
  text : x.1 = false → y.2.error = x.2.error

section Later
variable {history : List HandleEvent} {s t : Handles} (alike : Alike history s t)
include alike

theorem Alike.logged (events : List HandleEvent) : Alike history (s.logged events) (t.logged events) :=
  ⟨alike.readOnly, alike.library, alike.runtime, alike.ready, alike.bound, by
    simp only [Handles.logged, alike.trace, List.append_assoc]⟩

theorem Alike.setSlot (slot : Slot) (address : Option Nat) :
    Alike history (s.setSlot slot address) (t.setSlot slot address) :=
  ⟨alike.readOnly, alike.library, alike.runtime, alike.ready, by
    simp only [Handles.setSlot, alike.bound], alike.trace⟩

theorem Alike.failAndReset (message : Bytes) :
    StepAlike history (failAndReset message s) (failAndReset message t) := by
  refine ⟨rfl, ⟨?_, ?_, ?_, ?_, ?_, ?_⟩, fun _ => rfl⟩
  all_goals simp only [Handles.failAndReset, resetLoadedState_eq]
  · exact alike.readOnly
  · rw [alike.bound, alike.runtime, alike.library, alike.trace, List.append_assoc, List.append_assoc,
      List.append_assoc]

theorem Alike.bindAll (symbol : Bytes → Option Nat) (entries : List (Slot × Bytes)) :
    StepAlike history (s.bindAll symbol entries) (t.bindAll symbol entries) := by
  induction entries generalizing s t with
  | nil => exact ⟨rfl, alike, fun failed => absurd failed (by simp [Handles.bindAll])⟩
  | cons entry entries ih =>
    cases found : symbol entry.2 with
    | none =>
      rw [bindAll_missing found, bindAll_missing found]
      exact ⟨rfl, ⟨alike.readOnly, alike.library, alike.runtime, alike.ready, alike.bound, alike.trace⟩,
        fun _ => rfl⟩
    | some address =>
      rw [bindAll_found found, bindAll_found found]
      exact ih (alike.setSlot entry.1 (some address))

theorem Alike.createRuntime (a : Attempt) :
    StepAlike history (s.createRuntime a) (t.createRuntime a) := by
  have chosen : Alike history (s.chooseFactory a) (t.chooseFactory a) := by
    simp only [chooseFactory, alike.readOnly]
    split
    · exact alike.setSlot _ _
    · exact alike
  rw [Handles.createRuntime, Handles.createRuntime]
  by_cases version : a.abiVersion ≠ 1
  · rw [if_pos version, if_pos version]
    exact alike.failAndReset _
  · rw [if_neg version, if_neg version]
    dsimp only
    by_cases missing : (s.chooseFactory a).readOnly = true ∧ (s.chooseFactory a).bound .create = none
    · rw [if_pos missing, if_pos (by rwa [chosen.readOnly, chosen.bound])]
      exact chosen.failAndReset _
    · rw [if_neg missing, if_neg (by rwa [chosen.readOnly, chosen.bound])]
      split
      · exact chosen.failAndReset _
      · rename_i runtime _
        have created : Alike history { s.chooseFactory a with runtime := some runtime }
            { t.chooseFactory a with runtime := some runtime } :=
          ⟨chosen.readOnly, chosen.library, rfl, chosen.ready, chosen.bound, chosen.trace⟩
        exact ⟨rfl, created.logged _, fun failed => absurd failed (by simp)⟩

theorem Alike.ensureLoaded (a : Attempt) (idle : s.runtime = none) :
    StepAlike history (s.ensureLoaded a) (t.ensureLoaded a) := by
  have first : ¬ s.runtime.isSome = true := by simp [idle]
  have second : ¬ t.runtime.isSome = true := by simp [alike.runtime, idle]
  rw [Handles.ensureLoaded, Handles.ensureLoaded, if_neg first, if_neg second]
  split
  · exact ⟨rfl, ⟨alike.readOnly, alike.library, alike.runtime, alike.ready, alike.bound, alike.trace⟩,
      fun _ => rfl⟩
  · split
    · exact ⟨rfl, ⟨alike.readOnly, rfl, alike.runtime, alike.ready, alike.bound, alike.trace⟩,
        fun _ => rfl⟩
    · rename_i library _
      have opened : Alike history { s with library := some library } { t with library := some library } :=
        ⟨alike.readOnly, rfl, alike.runtime, alike.ready, alike.bound, alike.trace⟩
      have bound := (opened.logged [.opened library]).bindAll a.symbol mandatorySymbols
      dsimp only
      rw [bound.answer]
      split
      · rename_i missed
        rw [bound.text (by simpa using missed)]
        exact bound.alike.failAndReset _
      · exact (bound.alike.setSlot _ _).createRuntime a

/-- A load of an empty client does not see what was loaded before. -/
theorem Alike.ensureReady (a : Attempt) (empty : s.Empty) :
    StepAlike history (s.ensureReady a) (t.ensureReady a) ∧
      (t.ensureReady a).2.error = (s.ensureReady a).2.error := by
  have unready : ¬ s.ready = true := by simp [empty.ready]
  have loaded := alike.ensureLoaded a empty.runtime
  rw [Handles.ensureReady, Handles.ensureReady, alike.ready, if_neg unready, if_neg unready]
  dsimp only
  rw [loaded.answer]
  split
  · rename_i missed
    exact ⟨loaded, loaded.text (by simpa using missed)⟩
  · split
    · have text : (t.ensureLoaded a).2.abiError a = (s.ensureLoaded a).2.abiError a := by
        simp only [abiError, loaded.alike.runtime, loaded.alike.bound]
      rw [text]
      exact ⟨loaded.alike.failAndReset _, rfl⟩
    · have same := loaded.alike
      exact ⟨⟨rfl, ⟨same.readOnly, same.library, same.runtime, rfl, same.bound, same.trace⟩,
        fun failed => absurd failed (by simp)⟩, rfl⟩

end Later

/-- What a failed load leaves. -/
def Cleared (s : Handles) : Prop :=
  s.ready = false ∧ s.library = none ∧ s.runtime = none ∧ ∀ slot, s.bound slot = none

theorem Empty.cleared {s : Handles} (empty : s.Empty) : s.Cleared :=
  ⟨empty.ready, empty.library, empty.runtime, fun slot => by rw [empty.slots]⟩

theorem Settled.empty_of_unready {s : Handles} (settled : s.Settled) (unready : s.ready = false) :
    s.Empty := by
  cases settled with
  | ready ready holding => exact absurd ready (by simp [unready])
  | empty empty => exact empty

/-- A failed load of either kind leaves an empty client. -/
theorem failed_cleared (a : Attempt) {s : Handles} (settled : s.Settled)
    (fails : (s.ensureReady a).1 = false) :
    (s.load a).2.Cleared ∧ ∀ answer, (s.mutate a answer).Cleared := by
  obtain ⟨after, answered, -⟩ := ensureReady_settled a settled
  have cleared := (after.empty_of_unready (answered.symm.trans fails)).cleared
  refine ⟨cleared, fun answer => ?_⟩
  simp only [mutate, fails, Bool.false_and, Bool.false_eq_true, if_false]
  exact cleared

theorem Alike.eq {history : List HandleEvent} {s t : Handles} (alike : Alike history s t)
    (text : t.error = s.error) : t = { s with trace := history ++ s.trace } := by
  obtain ⟨readOnly, library, runtime, ready, bound, trace⟩ := alike
  cases s
  cases t
  simp_all

/-- A load of a client that is not ready answers and ends as on a new client. -/
theorem later_load (a : Attempt) {s : Handles} (settled : s.Settled) (unready : s.ready = false) :
    s.load a = ((({ readOnly := s.readOnly } : Handles).load a).1,
      { (({ readOnly := s.readOnly } : Handles).load a).2 with
        trace := s.trace ++ (({ readOnly := s.readOnly } : Handles).load a).2.trace }) := by
  have empty := settled.empty_of_unready unready
  have alike : Alike s.trace { readOnly := s.readOnly } s :=
    ⟨rfl, empty.library, empty.runtime, empty.ready, empty.slots, (List.append_nil _).symm⟩
  obtain ⟨⟨answer, same, -⟩, text⟩ := alike.ensureReady a (fresh_empty s.readOnly)
  simp only [load, answer, same.eq text]
  rfl

/-- The life of a client, over every history of loads, implicit loads by mutating calls and
unloads, whatever each load meets: readiness means that everything is held and bound, a failed
load leaves nothing, what the system did is a sequence of whole openings (each closed once, and
a runtime created in it destroyed once before that) followed by what is still held, destruction
gives that back too, and an unready client loads like a new one. -/
theorem client_life_cycle (readOnly : Bool) (calls : List HandleCall) :
    ((after readOnly calls).ready = true → (after readOnly calls).library.isSome ∧
      (after readOnly calls).runtime.isSome ∧
      ∀ entry ∈ mandatorySymbols, ((after readOnly calls).bound entry.1).isSome) ∧
    (∀ a, ((after readOnly calls).ensureReady a).1 = false →
      ((after readOnly calls).load a).2.Cleared ∧
      ∀ answer, ((after readOnly calls).mutate a answer).Cleared) ∧
    (∃ sessions : List LibrarySession, (after readOnly calls).trace =
      sessions.flatMap LibrarySession.events ++ (after readOnly calls).pending) ∧
    (∃ sessions : List LibrarySession,
      (after readOnly calls).destruct.trace = sessions.flatMap LibrarySession.events) ∧
    ∀ a, (after readOnly calls).ready = false → (after readOnly calls).load a =
      ((({ readOnly := readOnly } : Handles).load a).1,
        { (({ readOnly := readOnly } : Handles).load a).2 with
          trace := (after readOnly calls).trace ++
            (({ readOnly := readOnly } : Handles).load a).2.trace }) := by
  obtain ⟨settled, same⟩ := after_settled readOnly calls
  refine ⟨?_, fun a => failed_cleared a settled, settled.accounted.complete, ?_, ?_⟩
  · intro ready
    cases settled with
    | ready _ holding => exact ⟨holding.library, holding.runtime, holding.slots⟩
    | empty empty => exact absurd ready (by simp [empty.ready])
  · have gone := reset_empty settled.accounted
    obtain ⟨sessions, complete⟩ := gone.complete
    refine ⟨sessions, ?_⟩
    simpa [destruct, pending, gone.library, gone.runtime] using complete
  · intro a unready
    have later := later_load a settled unready
    rwa [same] at later

end Handles

/-- An installed library with every symbol. -/
def wholeInstallation : Attempt where
  libraryPath := lit "SuchRuntimePrivate.dll"
  opened := some 1
  symbol _ := some 7
  created := some 2

/-- A load that misses a symbol, then one that succeeds: the second opening is still held. -/
theorem retried_load_holds :
    (Handles.after false [.load { wholeInstallation with symbol := fun _ => none },
        .load wholeInstallation]).library.isSome ∧
      (Handles.after false [.load { wholeInstallation with symbol := fun _ => none },
        .load wholeInstallation]).runtime.isSome ∧
      ∀ entry ∈ mandatorySymbols,
        ((Handles.after false [.load { wholeInstallation with symbol := fun _ => none },
          .load wholeInstallation]).bound entry.1).isSome :=
  (Handles.client_life_cycle false _).1 (by decide +kernel)

end Such.RuntimeClient
