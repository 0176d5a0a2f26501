import Such.Runtime.RuntimeClient.Handles

/-! The client with its handles does what the client of the other modules does: the handles,
the slots and the order of the system calls are hidden, the answers are the same. -/
namespace Such.RuntimeClient
open ByteText

def Attempt.missingSymbol (a : Attempt) : Option Bytes :=
  (mandatorySymbols.find? fun entry => (a.symbol entry.2).isNone).map Prod.snd

/-- What the load of one attempt finds, without its handles. -/
def Attempt.installation (a : Attempt) : Installation Nat where
  libraryPath := a.libraryPath
  opens := a.opened.isSome
  missingSymbol := a.missingSymbol
  abiVersion := a.abiVersion
  createsReadonly := (a.symbol (lit "such_runtime_create_readonly_v1")).isSome
  create _ := a.created
  load runtime := (a.loads, runtime)

/-- The client that callers see. -/
def Handles.client (s : Handles) : Client Nat where
  readOnly := s.readOnly
  error := s.error
  runtime := if s.ready then s.runtime else none

namespace Handles

section Chain
variable {symbol : Bytes → Option Nat} {entries : List (Slot × Bytes)}

/-- A chain of bindings fails at the first symbol the library lacks, and names it. -/
theorem bindAll_missing_first {entry : Slot × Bytes}
    (first : (entries.find? fun entry => (symbol entry.2).isNone) = some entry) (s : Handles) :
    (s.bindAll symbol entries).1 = false ∧
      (s.bindAll symbol entries).2.error = lit "missing runtime ABI symbol: " ++ entry.2 := by
  induction entries generalizing s with
  | nil => contradiction
  | cons head entries ih =>
    cases found : symbol head.2 with
    | none =>
      simp only [List.find?_cons, found, Option.isNone_none, Option.some.injEq] at first
      rw [bindAll_missing found, first]
      exact ⟨rfl, rfl⟩
    | some address =>
      simp only [List.find?_cons, found, Option.isNone_some] at first
      rw [bindAll_found found]
      exact ih first _

theorem bindAll_none_missing (whole : (entries.find? fun entry => (symbol entry.2).isNone) = none)
    (s : Handles) : (s.bindAll symbol entries).1 = true := by
  induction entries generalizing s with
  | nil => rfl
  | cons head entries ih =>
    cases found : symbol head.2 with
    | none => simp [found] at whole
    | some address =>
      simp only [List.find?_cons, found, Option.isNone_some] at whole
      rw [bindAll_found found]
      exact ih whole _

end Chain

/-- A step of the client with handles and an answer of the client without them. -/
structure Agrees (step : Bool × Handles) (answer : Except Bytes Nat) : Prop where
  fails : ∀ e, answer = .error e → step.1 = false ∧ step.2.error = e
  succeeds : ∀ runtime, answer = .ok runtime → step.1 = true ∧ step.2.runtime = some runtime

theorem agrees_error {step : Bool × Handles} {e : Bytes} (missed : step.1 = false)
    (text : step.2.error = e) : Agrees step (.error e) := by
  refine ⟨fun e' same => ?_, fun runtime same => absurd same (by simp)⟩
  cases same
  exact ⟨missed, text⟩

/-- The factory a read-only client binds is there exactly if the library exports it. -/
theorem chooseFactory_missing_iff (a : Attempt) (s : Handles) :
    ((s.chooseFactory a).readOnly = true ∧ (s.chooseFactory a).bound .create = none) ↔
      (s.readOnly && !a.installation.createsReadonly) = true := by
  rw [(chooseFactory_same a s).readOnly]
  cases reader : s.readOnly with
  | true => simp [chooseFactory, reader, bindOptional, setSlot, Attempt.installation]
  | false => simp

theorem createRuntime_agrees (a : Attempt) {s : Handles} {readOnly : Bool}
    (reader : s.readOnly = readOnly) (path : a.installation.libraryPath.isEmpty = false)
    (opens : a.installation.opens = true) (whole : a.installation.missingSymbol = none) :
    Agrees (s.createRuntime a) (a.installation.ensureLoaded readOnly) := by
  subst reader
  have factory := chooseFactory_missing_iff a s
  have version : a.installation.abiVersion = a.abiVersion := rfl
  have create : a.installation.create s.readOnly = a.created := rfl
  simp only [Installation.ensureLoaded, path, opens, whole, version, create, Bool.false_eq_true,
    if_false, Bool.not_true]
  simp only [Handles.createRuntime]
  by_cases other : a.abiVersion ≠ 1
  · rw [if_pos other, if_pos other]
    exact agrees_error rfl rfl
  · rw [if_neg other, if_neg other]
    by_cases missing : (s.readOnly && !a.installation.createsReadonly) = true
    · rw [if_pos missing, if_pos (factory.mpr missing)]
      exact agrees_error rfl rfl
    · rw [if_neg missing, if_neg (fun both => missing (factory.mp both))]
      cases a.created with
      | none => exact agrees_error rfl rfl
      | some runtime =>
        refine ⟨fun e same => absurd same (by simp), fun other same => ?_⟩
        cases same
        exact ⟨rfl, rfl⟩

/-- Opening from nothing: both models fail with one text or create one runtime. -/
theorem ensureLoaded_agrees (a : Attempt) {s : Handles} (empty : s.Empty) :
    Agrees (s.ensureLoaded a) (a.installation.ensureLoaded s.readOnly) := by
  have idle : ¬ s.runtime.isSome = true := by simp [empty.runtime]
  rw [Handles.ensureLoaded, if_neg idle]
  cases path : a.libraryPath.isEmpty with
  | true =>
    simp only [Installation.ensureLoaded, Attempt.installation, path, if_true]
    exact agrees_error rfl rfl
  | false =>
    rw [if_neg (by simp)]
    cases opened : a.opened with
    | none =>
      simp only [Installation.ensureLoaded, Attempt.installation, path, opened, Option.isSome_none,
        Bool.false_eq_true, if_false, Bool.not_false, if_true]
      exact agrees_error rfl rfl
    | some library =>
      dsimp only
      cases missing : mandatorySymbols.find? fun entry => (a.symbol entry.2).isNone with
      | some entry =>
        obtain ⟨stops, text⟩ := bindAll_missing_first missing
          ({ s with library := some library }.logged [.opened library])
        rw [if_pos (by simp [stops])]
        simp only [Installation.ensureLoaded, Attempt.installation, Attempt.missingSymbol, path, opened,
          missing, Option.map_some, Option.isSome_some, Bool.not_true, Bool.false_eq_true, if_false]
        exact agrees_error rfl text
      | none =>
        have all := bindAll_none_missing missing
          ({ s with library := some library }.logged [.opened library])
        have same := bindAll_same a.symbol mandatorySymbols
          ({ s with library := some library }.logged [.opened library])
        rw [if_neg (by simp [all])]
        refine createRuntime_agrees a ?_ path ?_ ?_
        · exact same.readOnly
        · simp [Attempt.installation, opened]
        · simp [Attempt.installation, Attempt.missingSymbol, missing]

theorem Empty.client {s : Handles} (empty : s.Empty) : s.client = ⟨s.readOnly, s.error, none⟩ := by
  simp [Handles.client, empty.ready]

/-- An empty client has only its own text to report, seen either way. -/
theorem Empty.runtimeError {s : Handles} (empty : s.Empty) (a : Attempt) (library : Library Nat) :
    RuntimeClient.runtimeError (s.client.impl library) = s.runtimeError a := by
  have slot : RuntimeClient.abiError (s.client.impl library) = s.abiError a := by
    simp [RuntimeClient.abiError, Handles.abiError, Client.impl, empty.client, empty.runtime]
  rw [RuntimeClient.runtimeError, Handles.runtimeError, slot]
  rfl

/-- A load with handles and a load without them: one answer, and the clients seen afterwards are
one client. -/
theorem load_client (a : Attempt) {s : Handles} (settled : s.Settled) (library : Library Nat)
    (text : ∀ runtime, (library.view runtime).lastError = a.lastError) :
    Client.load library (fun w : Unit => (a.installation, w)) s.client () =
      ((s.load a).1, (s.load a).2.client, ()) := by
  cases settled with
  | ready ready holding =>
    obtain ⟨runtime, held⟩ := Option.isSome_iff_exists.mp holding.runtime
    have seen : s.client = ⟨s.readOnly, s.error, some runtime⟩ := by simp [client, ready, held]
    rw [Handles.load, ensureReady_of_ready a ready, if_pos rfl, seen]
    rfl
  | empty empty =>
    have unready : ¬ s.ready = true := by simp [empty.ready]
    have agrees := ensureLoaded_agrees a empty
    have outcome := ensureLoaded_outcome a empty
    rw [Handles.load, Handles.ensureReady, if_neg unready, empty.client]
    simp only [Client.load, Client.ensureReady]
    generalize s.ensureLoaded a = step at agrees outcome ⊢
    obtain ⟨kept, closed, holding, idle⟩ := outcome
    cases answer : a.installation.ensureLoaded s.readOnly with
    | error e =>
      obtain ⟨missed, message⟩ := agrees.fails e answer
      have empty := idle missed
      have hidden : step.2.client = ⟨s.readOnly, e, none⟩ := by rw [empty.client, kept, message]
      have spoken := empty.runtimeError a library
      rw [hidden] at spoken
      simp only [missed, Bool.not_false, if_true, Bool.false_eq_true, if_false, hidden, spoken]
    | ok runtime =>
      obtain ⟨opened, held⟩ := agrees.succeeds runtime answer
      have holds := holding opened
      have slot := holds.slots (.lastError, lit "such_runtime_last_error_v1") (by simp [mandatorySymbols])
      have abi : step.2.abiError a = cstr a.lastError := by
        simp only [Handles.abiError, held, slot, Option.isSome_some, and_self, if_true]
      have loads : a.installation.load runtime = (a.loads, runtime) := rfl
      simp only [opened, Bool.not_true, Bool.false_eq_true, if_false, loads]
      cases a.loads with
      | true =>
        simp only [Bool.not_true, Bool.false_eq_true, if_false, if_true, client, held, kept,
          Client.ofLoaded]
      | false =>
        have same : callError (step.2.abiError a) (lit "Such private runtime could not be loaded") =
            callError (library.view runtime).lastError
              (lit "Such private runtime could not be loaded") := by
          rw [abi, text, callError, callError, cstr_of_notMem (notMem_cstr a.lastError)]
        have empty := failAndReset_empty (callError (library.view runtime).lastError
          (lit "Such private runtime could not be loaded")) holds.toAccounted
        have hidden := empty.client
        have spoken := empty.runtimeError a library
        have reader : (failAndReset (callError (library.view runtime).lastError
            (lit "Such private runtime could not be loaded")) step.2).2.readOnly = s.readOnly := by
          simp only [failAndReset, resetLoadedState_eq, kept]
        rw [hidden, reader] at spoken
        rw [reader] at hidden
        simp only [Bool.not_false, if_true, same, hidden]
        exact congrArg (fun e => (Except.error e, _, ())) spoken

end Handles
end Such.RuntimeClient
