import Such.Runtime.RuntimeClient.Mutations

/-! The client from its construction on: what a load opens, what an unloaded client
answers, and the calls that load it on demand. `W` is the process's environment. -/
namespace Such.RuntimeClient
open ByteText CivilTime SearchDialect

/-- What a process finds when it opens the private runtime. The first mandatory symbol
that does not bind ends the search for symbols. -/
structure Installation (σ : Type) where
  libraryPath : Bytes
  opens : Bool := true
  missingSymbol : Option Bytes := none
  abiVersion : UInt32 := 1
  createsReadonly : Bool := true
  create : Bool → Option σ
  load : σ → Bool × σ

/-- A client is ready exactly when it holds a runtime: a failed load releases it. -/
structure Client (σ : Type) where
  readOnly : Bool := false
  error : Bytes := []
  runtime : Option σ := none
deriving DecidableEq, Repr

namespace Installation
variable {σ : Type}

def ensureLoaded (found : Installation σ) (readOnly : Bool) : Except Bytes σ :=
  if found.libraryPath.isEmpty then
    .error (lit "Such could not resolve its executable directory for runtime discovery")
  else if !found.opens then
    .error (lit "Such private runtime is not installed. Expected: " ++ found.libraryPath)
  else
    match found.missingSymbol with
    | some name => .error (lit "missing runtime ABI symbol: " ++ name)
    | none =>
      if found.abiVersion ≠ 1 then .error (lit "Such private runtime ABI version mismatch")
      else if readOnly && !found.createsReadonly then
        .error (lit "This runtime does not support filename snapshots during indexing")
      else
        match found.create readOnly with
        | none => .error (lit "Such private runtime could not be created")
        | some runtime => .ok runtime

end Installation

namespace Client
variable {σ W : Type} (library : Library σ) (look : W → Installation σ × W)

def available (c : Client σ) : Bool := c.runtime.isSome

def impl (c : Client σ) : Impl where
  readOnly := c.readOnly
  ready := c.available
  error := c.error
  runtime := c.runtime.map library.view

def ofLoaded (readOnly : Bool) (l : Loaded σ) : Client σ := ⟨readOnly, l.error, some l.runtime⟩

def unload (c : Client σ) : Client σ := { readOnly := c.readOnly }

/-- Opens the runtime unless the client already holds it. -/
def ensureReady (c : Client σ) (w : W) : Except (Client σ) (Loaded σ) × W :=
  match c.runtime with
  | some runtime => (.ok ⟨c.error, runtime⟩, w)
  | none =>
    let (found, w) := look w
    match found.ensureLoaded c.readOnly with
    | .error e => (.error { c with error := e }, w)
    | .ok runtime =>
      match found.load runtime with
      | (true, runtime) => (.ok ⟨[], runtime⟩, w)
      | (false, runtime) =>
        let abi := (library.view runtime).lastError
        (.error { c with error := callError abi (lit "Such private runtime could not be loaded") }, w)

def load (c : Client σ) (w : W) : Except Bytes Unit × Client σ × W :=
  match c.ensureReady library look w with
  | (.error failed, w) => (.error (runtimeError (failed.impl library)), failed, w)
  | (.ok loaded, w) => (.ok (), ofLoaded c.readOnly loaded, w)

/-- A mutating call loads the client first. -/
def mutate (call : Loaded σ → Except Bytes Unit × Loaded σ) (c : Client σ) (w : W) :
    Except Bytes Unit × Client σ × W :=
  match c.ensureReady library look w with
  | (.error failed, w) => (.error (runtimeError (failed.impl library)), failed, w)
  | (.ok loaded, w) =>
    let (result, loaded) := call loaded
    (result, ofLoaded c.readOnly loaded, w)

def addRoot (root : Bytes) : Client σ → W → Except Bytes Unit × Client σ × W :=
  mutate library look (Loaded.addRoot library root)

def removeRoot (root : Bytes) : Client σ → W → Except Bytes Unit × Client σ × W :=
  mutate library look (Loaded.removeRoot library root)

def replaceRoots (roots : List Bytes) : Client σ → W → Except Bytes Unit × Client σ × W :=
  mutate library look (Loaded.replaceRoots library roots)

def setPinned (path : Bytes) (pinned : Bool) : Client σ → W → Except Bytes Unit × Client σ × W :=
  mutate library look (Loaded.setPinned library path pinned)

def setIndexed (path : Bytes) (indexed : Bool) : Client σ → W → Except Bytes Unit × Client σ × W :=
  mutate library look (Loaded.setIndexed library path indexed)

/-- The roots and the text a caller's empty error string receives. -/
def roots (c : Client σ) : (List Bytes × Bytes) × Client σ :=
  match c.runtime with
  | none => (([], runtimeError (c.impl library)), c)
  | some runtime =>
    match Loaded.roots library ⟨c.error, runtime⟩ with
    | (.ok values, loaded) => ((values, []), ofLoaded c.readOnly loaded)
    | (.error e, loaded) => (([], e), ofLoaded c.readOnly loaded)

def status (c : Client σ) : RuntimeStatus × Client σ :=
  match c.runtime with
  | none => ({ lastError := runtimeError (c.impl library) }, c)
  | some runtime =>
    let (out, loaded) := Loaded.status library ⟨c.error, runtime⟩
    (out, ofLoaded c.readOnly loaded)

def generation (c : Client σ) : Nat := (c.runtime.map library.generation).getD 0

def observed (c : Client σ) : List Bytes := observedExtensions (c.impl library)

def search (zone : Zone) (dialect : PlatformDialect) (now : Int) (query : Bytes) (maxResults : Nat)
    (c : Client σ) : (List ResultItem × Bytes) × Client σ :=
  let outcome := RuntimeClient.search zone dialect now (c.impl library) query maxResults
  ((outcome.items, outcome.error), { c with error := outcome.impl.error })

@[simp] theorem available_ofLoaded (readOnly : Bool) (l : Loaded σ) :
    (ofLoaded readOnly l).available = true := rfl

/-- Listing the roots neither loads the client nor releases it. -/
@[simp] theorem available_roots (c : Client σ) : (c.roots library).2.available = c.available := by
  simp only [roots]
  cases held : c.runtime with
  | none => rfl
  | some runtime =>
    simp only [available, held, Option.isSome_some]
    split <;> rfl

@[simp] theorem available_status (c : Client σ) : (c.status library).2.available = c.available := by
  simp only [status]
  cases held : c.runtime with
  | none => rfl
  | some runtime => simp only [available, held, Option.isSome_some, ofLoaded]

@[simp] theorem readOnly_roots (c : Client σ) : (c.roots library).2.readOnly = c.readOnly := by
  simp only [roots]
  cases c.runtime with
  | none => rfl
  | some runtime =>
    dsimp only
    split <;> rfl

@[simp] theorem readOnly_status (c : Client σ) : (c.status library).2.readOnly = c.readOnly := by
  simp only [status]
  cases c.runtime with
  | none => rfl
  | some runtime => rfl

@[simp] theorem readOnly_load (c : Client σ) (w : W) :
    (c.load library look w).2.1.readOnly = c.readOnly := by
  simp only [load, ensureReady]
  cases c.runtime with
  | some runtime => rfl
  | none =>
    dsimp only
    split
    · rename_i failed w' missed
      split at missed
      · cases missed
        rfl
      · split at missed
        · cases missed
        · cases missed
          rfl
    · rfl

/-- A load answers by what the client has become. -/
theorem load_ok_iff (c : Client σ) (w : W) :
    (c.load library look w).1 = .ok () ↔ (c.load library look w).2.1.available = true := by
  simp only [load]
  cases held : c.runtime with
  | some runtime => simp only [ensureReady, held, available_ofLoaded]
  | none =>
    simp only [ensureReady, held]
    split
    · rename_i failed w' missed
      have empty : failed.available = false := by
        split at missed
        · simp only [Prod.mk.injEq, Except.error.injEq] at missed
          simp only [available, ← missed.1, Option.isSome_none]
        · split at missed
          · simp only [Prod.mk.injEq, reduceCtorEq, false_and] at missed
          · simp only [Prod.mk.injEq, Except.error.injEq] at missed
            simp only [available, ← missed.1, Option.isSome_none]
      simp only [reduceCtorEq, empty, Bool.false_eq_true]
    · simp only [available_ofLoaded]

end Client
end Such.RuntimeClient
