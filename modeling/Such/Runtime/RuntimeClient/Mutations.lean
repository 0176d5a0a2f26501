import Such.Runtime.RuntimeClient

/-! The client of a loaded runtime whose state changes under its calls: the root and
index mutations, the listings and the status. -/
namespace Such.RuntimeClient
open ByteText CivilTime SearchDialect

structure RawStatus where
  indexing : Bool := false
  indexedFiles : Nat := 0
  generation : Nat := 0
deriving DecidableEq, Repr

/-- The exported functions over the library's own state. A refused call is `false` or
`none`; `view` is what the query functions answer in a state. -/
structure Library (σ : Type) where
  view : σ → Runtime
  addRoot : Bytes → σ → Bool × σ
  removeRoot : Bytes → σ → Bool × σ
  replaceRoots : List Bytes → σ → Bool × σ
  listRoots : σ → Option (List Bytes) × σ
  setIndexed : Bytes → Bool → σ → Bool × σ
  setPinned : Bytes → Bool → σ → Bool × σ
  reindexAsync : σ → σ
  status : σ → Option RawStatus × σ
  generation : σ → Nat

/-- A client after a successful load. -/
structure Loaded (σ : Type) where
  error : Bytes := []
  runtime : σ
deriving DecidableEq, Repr

structure RuntimeStatus where
  lastError : Bytes := []
  roots : List Bytes := []
  indexing : Bool := false
  indexedFiles : Nat := 0
  generation : Nat := 0
deriving DecidableEq, Repr

namespace Loaded
variable {σ : Type} (library : Library σ)

def impl (c : Loaded σ) : Impl :=
  { ready := true, error := c.error, runtime := some (library.view c.runtime) }

/-- The client's side of every mutating call: success clears its error text. -/
def mutate (call : σ → Bool × σ) (c : Loaded σ) : Except Bytes Unit × Loaded σ :=
  match call c.runtime with
  | (true, runtime) => (.ok (), { error := [], runtime := runtime })
  | (false, runtime) =>
    let c := { c with runtime := runtime }
    (.error (runtimeError (c.impl library)), c)

def addRoot (root : Bytes) : Loaded σ → Except Bytes Unit × Loaded σ :=
  mutate library (library.addRoot (cstr root))

def removeRoot (root : Bytes) : Loaded σ → Except Bytes Unit × Loaded σ :=
  mutate library (library.removeRoot (cstr root))

def replaceRoots (roots : List Bytes) : Loaded σ → Except Bytes Unit × Loaded σ :=
  mutate library (library.replaceRoots (roots.map cstr))

def setIndexed (path : Bytes) (indexed : Bool) : Loaded σ → Except Bytes Unit × Loaded σ :=
  mutate library (library.setIndexed (cstr path) indexed)

def setPinned (path : Bytes) (pinned : Bool) : Loaded σ → Except Bytes Unit × Loaded σ :=
  mutate library (library.setPinned (cstr path) pinned)

def roots (c : Loaded σ) : Except Bytes (List Bytes) × Loaded σ :=
  match library.listRoots c.runtime with
  | (some values, runtime) => (.ok (values.map cstr), { error := [], runtime := runtime })
  | (none, runtime) =>
    let error := callError (library.view runtime).lastError
      (lit "Such private runtime could not list search roots")
    (.error error, { error := error, runtime := runtime })

def reindexAsync (c : Loaded σ) : Loaded σ := { c with runtime := library.reindexAsync c.runtime }

/-- The error of an asynchronous crawl is read before listing the roots can clear it. -/
def status (c : Loaded σ) : RuntimeStatus × Loaded σ :=
  let earlier := runtimeError (c.impl library)
  let (listed, c) := c.roots library
  let out : RuntimeStatus := match listed with
    | .ok values => { lastError := earlier, roots := values }
    | .error e => { lastError := e }
  match library.status c.runtime with
  | (none, runtime) =>
    let c := { c with runtime := runtime }
    ({ out with lastError := runtimeError (c.impl library) }, c)
  | (some raw, runtime) =>
    let c := { c with runtime := runtime }
    let statusError := abiError (c.impl library)
    ({ out with
        indexing := raw.indexing, indexedFiles := raw.indexedFiles, generation := raw.generation,
        lastError := if statusError.isEmpty then out.lastError else statusError }, c)

/-- A search leaves the runtime as it is and renews the client's error text. -/
def search (zone : Zone) (dialect : PlatformDialect) (now : Int) (query : Bytes) (maxResults : Nat)
    (c : Loaded σ) : SearchOutcome × Loaded σ :=
  let outcome := RuntimeClient.search zone dialect now (c.impl library) query maxResults
  (outcome, { c with error := outcome.impl.error })

end Loaded
end Such.RuntimeClient
