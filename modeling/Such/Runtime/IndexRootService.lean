import Such.Runtime.IndexPathPolicy
import Such.Runtime.RuntimeClient.Mutations

/-! The service that owns search-root changes: alias resolution, policy planning, the
order of the runtime calls with their rollback, and the deferred clean-up of dependency
and cache trees. It is written over any library. -/
namespace Such.IndexRootService
open ByteText LexicalPath IndexPathPolicy RuntimeClient SearchDialect CivilTime

structure ResolvedRoot where
  path : Bytes
  overrideMode : IndexPolicyOverride := .none
deriving DecidableEq, Repr

structure PreparedRootSet where
  roots : List ResolvedRoot := []
  exclusions : List Bytes := []
deriving DecidableEq, Repr

/-- What the policy says about a root set. -/
abbrev Planner := List IndexPolicyRootRequest → IndexPathPolicyPlan

section Planning
variable (platform : Platform)

/-- Empty where Windows finds no UTF-8. -/
def pathFromUtf8 (text : Bytes) : Bytes :=
  match platform with
  | .posix _ => text
  | .windows host => if text.isEmpty then [] else if host.decodes text then text else []

def comparablePathKey (path : Bytes) : Bytes :=
  platform.fold (stripTrailing (genericText platform.convention
    (lexicallyNormal platform.convention path)))

def resolveRootRequest (requested : Bytes) : ResolvedRoot :=
  match platform with
  | .posix _ => ⟨requested, .none⟩
  | .windows _ =>
    match if isWindowsManualIndexAlias requested then resolveWindowsManualIndexAlias platform requested
      else none with
    | some resolved => ⟨resolved, .explicitCurrentUserAppData⟩
    | none => ⟨requested, .none⟩

/-- Exact AppData roots were admitted by an explicit request once. -/
def resolvePersistedRoot (persisted : Bytes) : ResolvedRoot :=
  if isCurrentUserManualAppdataRoot platform persisted then ⟨persisted, .explicitCurrentUserAppData⟩
  else ⟨persisted, .none⟩

/-- A root joins the others, or hands its override to the one that has its key. -/
def mergeRoot (root : ResolvedRoot) : List ResolvedRoot → List ResolvedRoot
  | [] => [root]
  | existing :: rest =>
    if comparablePathKey platform existing.path = comparablePathKey platform root.path then
      (if root.overrideMode = .explicitCurrentUserAppData then
        { existing with overrideMode := root.overrideMode } else existing) :: rest
    else existing :: mergeRoot root rest

def uniqueRoots (resolved : List ResolvedRoot) : List ResolvedRoot :=
  resolved.foldl (fun unique root => mergeRoot platform root unique) []

def prepareRootSet (resolved : List ResolvedRoot)
    (planner : Planner := planDefaultIndexPolicySet platform) : Except Bytes PreparedRootSet :=
  let unique := uniqueRoots platform resolved
  let plan := planner (unique.map fun root => ⟨root.path, root.overrideMode⟩)
  if !plan.rootAllowed then
    .error (if plan.rejectionReason.isEmpty then
      lit "Search root is blocked by the default index policy" else plan.rejectionReason)
  else .ok ⟨unique, plan.exclusions⟩

def resolvePersistedRoots (values : List Bytes) : List ResolvedRoot :=
  (values.filter fun value => value.isEmpty || !(pathFromUtf8 platform value).isEmpty).map
    fun value => resolvePersistedRoot platform (pathFromUtf8 platform value)

end Planning

/-- One set of handled prefixes for each noise term. -/
structure Maintenance where
  enabled : Bool := true
  pending : Bool := false
  fixedReady : Bool := false
  fixedIndex : Nat := 0
  noiseTermIndex : Nat := 0
  fixedExclusions : List Bytes := []
  seenPrefixes : Nat → List Bytes := fun _ => []

structure Service (σ : Type) where
  runtime : Loaded σ
  dialect : PlatformDialect
  maintenance : Maintenance := {}

namespace Service
variable {σ : Type} (platform : Platform) (library : Library σ)

/-- A call of the runtime the service holds. -/
def call {α : Type} (f : Loaded σ → α × Loaded σ) (s : Service σ) : α × Service σ :=
  ((f s.runtime).1, { s with runtime := (f s.runtime).2 })

/-- A step, and the next one only after its success. -/
def andThen {α β : Type} (first : Except Bytes α × Service σ)
    (next : α → Service σ → Except Bytes β × Service σ) : Except Bytes β × Service σ :=
  match first with
  | (.error e, s) => (.error e, s)
  | (.ok a, s) => next a s

@[simp] theorem andThen_error {α β : Type} (e : Bytes) (s : Service σ)
    (next : α → Service σ → Except Bytes β × Service σ) : andThen (.error e, s) next = (.error e, s) :=
  rfl

@[simp] theorem andThen_ok {α β : Type} (a : α) (s : Service σ)
    (next : α → Service σ → Except Bytes β × Service σ) : andThen (.ok a, s) next = next a s := rfl

theorem andThen_eq_error {α β : Type} {first : Except Bytes α × Service σ}
    {next : α → Service σ → Except Bytes β × Service σ} {e : Bytes} {t : Service σ}
    (failed : andThen first next = (.error e, t)) :
    first = (.error e, t) ∨ ∃ a u, first = (.ok a, u) ∧ next a u = (.error e, t) := by
  obtain ⟨result, u⟩ := first
  cases result with
  | error e' =>
    cases failed
    exact .inl rfl
  | ok a => exact .inr ⟨a, u, rfl, failed⟩

theorem andThen_eq_ok {α β : Type} {first : Except Bytes α × Service σ}
    {next : α → Service σ → Except Bytes β × Service σ} {b : β} {t : Service σ}
    (done : andThen first next = (.ok b, t)) : ∃ a u, first = (.ok a, u) ∧ next a u = (.ok b, t) := by
  obtain ⟨result, u⟩ := first
  cases result with
  | error e => cases congrArg Prod.fst done
  | ok a => exact ⟨a, u, rfl, done⟩

def requestMaintenance (s : Service σ) : Service σ :=
  if !s.maintenance.enabled then s
  else { s with maintenance := { enabled := true, pending := true } }

/-- Success, with maintenance to follow. -/
def succeed (s : Service σ) : Except Bytes Unit × Service σ := (.ok (), s.requestMaintenance)

def applyExclusion (excluded : Bytes) (s : Service σ) : Except Bytes Unit × Service σ :=
  match s.call (Loaded.setIndexed library excluded false) with
  | (.error e, s) => (.error (if e.isEmpty then
      lit "Such could not apply a default index exclusion: " ++ excluded else e), s)
  | (.ok _, s) => (.ok (), s)

def applyExclusions : List Bytes → Service σ → Except Bytes Unit × Service σ
  | [], s => (.ok (), s)
  | excluded :: rest, s =>
    andThen (applyExclusion library excluded s) fun _ s => applyExclusions rest s

def addRoots : List ResolvedRoot → Service σ → Except Bytes Unit × Service σ
  | [], s => (.ok (), s)
  | root :: rest, s =>
    andThen (s.call (Loaded.addRoot library root.path)) fun _ s => addRoots rest s

/-- Replacing the roots clears the exclusions, so they are seeded before the roots. -/
def applyPreparedRootSet (prepared : PreparedRootSet) (s : Service σ) :
    Except Bytes Unit × Service σ :=
  andThen (s.call (Loaded.replaceRoots library [])) fun _ s =>
    andThen (applyExclusions library prepared.exclusions s) fun _ s =>
      addRoots library prepared.roots s

/-- The error text after a rollback, which names the rollback's own failure. -/
def rollbackError (primary : Bytes) (restored : Except Bytes Unit) : Bytes :=
  (if primary.isEmpty then lit "Search-root mutation failed" else primary) ++
    match restored with
    | .ok _ => []
    | .error e => lit "; policy-preserving rollback failed" ++
        if e.isEmpty then [] else lit ": " ++ e

def restoreRoots (previous : List Bytes) (s : Service σ)
    (planner : Planner := planDefaultIndexPolicySet platform) : Except Bytes Unit × Service σ :=
  match prepareRootSet platform (previous.map (resolvePersistedRoot platform)) planner with
  | .error e => (.error e, s)
  | .ok prepared => applyPreparedRootSet library prepared s

def rollbackRoots (previous : List Bytes) (primary : Bytes) (s : Service σ)
    (planner : Planner := planDefaultIndexPolicySet platform) : Except Bytes Unit × Service σ :=
  let (restored, s) := restoreRoots platform library previous s planner
  (.error (rollbackError primary restored), s.requestMaintenance)

def seedRootSet (prepared : PreparedRootSet) (previous : List Bytes) (s : Service σ)
    (planner : Planner := planDefaultIndexPolicySet platform) : Except Bytes Unit × Service σ :=
  match applyPreparedRootSet library prepared s with
  | (.error e, s) => rollbackRoots platform library previous e s planner
  | (.ok _, s) => succeed s

def sameRoot (a b : ResolvedRoot) : Bool :=
  comparablePathKey platform a.path == comparablePathKey platform b.path

def addRoot (root : Bytes) (s : Service σ)
    (planner : Planner := planDefaultIndexPolicySet platform) : Except Bytes Unit × Service σ :=
  andThen (s.call (Loaded.roots library)) fun values s =>
    let current := resolvePersistedRoots platform values
    let requested := resolveRootRequest platform root
    match prepareRootSet platform (current ++ [requested]) planner with
    | .error e => (.error e, s)
    | .ok prepared =>
      if requested.overrideMode = .explicitCurrentUserAppData then
        seedRootSet platform library prepared (current.map (·.path)) s planner
      else
        andThen (applyExclusions library prepared.exclusions s) fun _ s =>
          if current.any (sameRoot platform · requested) then succeed s
          else andThen (s.call (Loaded.addRoot library requested.path)) fun _ s => succeed s

def replaceRoots (roots : List Bytes) (s : Service σ)
    (planner : Planner := planDefaultIndexPolicySet platform) : Except Bytes Unit × Service σ :=
  match prepareRootSet platform (roots.map (resolveRootRequest platform)) planner with
  | .error e => (.error e, s)
  | .ok prepared =>
    andThen (s.call (Loaded.roots library)) fun values s =>
      seedRootSet platform library prepared (values.map (pathFromUtf8 platform)) s planner

def removeRoot (root : Bytes) (s : Service σ)
    (planner : Planner := planDefaultIndexPolicySet platform) : Except Bytes Unit × Service σ :=
  let requested := resolveRootRequest platform root
  andThen (s.call (Loaded.roots library)) fun values s =>
    let current := resolvePersistedRoots platform values
    let removedExplicitAppData := current.any fun value =>
      sameRoot platform value requested && value.overrideMode == .explicitCurrentUserAppData
    match prepareRootSet platform (current.filter fun value => !sameRoot platform value requested)
        planner with
    | .error e => (.error e, s)
    | .ok prepared =>
      if removedExplicitAppData then
        seedRootSet platform library prepared (current.map (·.path)) s planner
      else
        andThen (s.call (Loaded.removeRoot library requested.path)) fun _ s =>
          andThen (applyExclusions library prepared.exclusions s) fun _ s => succeed s

def reindexAsync (s : Service σ)
    (planner : Planner := planDefaultIndexPolicySet platform) : Except Bytes Unit × Service σ :=
  andThen (s.call (Loaded.roots library)) fun values s =>
    if values.isEmpty then succeed { s with runtime := s.runtime.reindexAsync library }
    else
      match prepareRootSet platform (resolvePersistedRoots platform values) planner with
      | .error e => (.error e, s)
      | .ok prepared =>
        seedRootSet platform library prepared (values.map (pathFromUtf8 platform)) s planner

def noiseTerms : List Bytes := ["node_modules", ".git", "__pycache__"].map lit

def maintenanceMutationLimit : Nat := 16

def prepareFixedMaintenance (s : Service σ) : Bool × Service σ :=
  match s.call (Loaded.roots library) with
  | (.error _, s) => (false, s)
  | (.ok values, s) =>
    match prepareRootSet platform (resolvePersistedRoots platform values) with
    | .error _ => (false, s)
    | .ok prepared =>
      (true, { s with maintenance := { s.maintenance with
        fixedExclusions := prepared.exclusions, fixedIndex := 0, fixedReady := true } })

/-- The next fixed exclusions, at most as many as one poll may apply. -/
def applyFixed : Nat → Service σ → Service σ
  | 0, s => s
  | budget + 1, s =>
    match s.maintenance.fixedExclusions[s.maintenance.fixedIndex]? with
    | none => s
    | some excluded =>
      let s := { s with maintenance := { s.maintenance with
        fixedIndex := s.maintenance.fixedIndex + 1 } }
      applyFixed budget (s.call (Loaded.setIndexed library excluded false)).2

def keyWithin (child parent : Bytes) : Bool :=
  child == parent || (!parent.isEmpty && parent.length < child.length && startsWith child parent &&
    child[parent.length]? == some 47)

def prefixInInstallRoot (host : WindowsHost) (noisePath : Bytes) : Bool :=
  keyWithin (comparablePathKey (.windows host) (pathFromUtf8 (.windows host) noisePath))
    (comparablePathKey (.windows host) (windowsSuchInstallRoot host))

def installRootInPrefix (host : WindowsHost) (noisePath : Bytes) : Bool :=
  keyWithin (comparablePathKey (.windows host) (windowsSuchInstallRoot host))
    (comparablePathKey (.windows host) (pathFromUtf8 (.windows host) noisePath))

/-- Whether a noise prefix may not be excluded for the sake of the installed copy. -/
def touchesInstallRoot (noisePath : Bytes) : Bool :=
  match platform with
  | .posix _ => false
  | .windows host => !(windowsSuchInstallRoot host).isEmpty &&
      (prefixInInstallRoot host noisePath || installRootInPrefix host noisePath)

/-- Excludes fresh prefixes of a term one by one; the count is of those applied. -/
def applyPrefixes (term : Nat) : Nat → List Bytes → Service σ → Nat × Service σ
  | applied, [], s => (applied, s)
  | applied, noisePath :: rest, s =>
    if (s.maintenance.seenPrefixes term).contains noisePath || touchesInstallRoot platform noisePath then
      applyPrefixes term applied rest s
    else
      match s.call (Loaded.setIndexed library noisePath false) with
      | (.error _, s) => applyPrefixes term applied rest s
      | (.ok _, s) =>
        let seen := s.maintenance.seenPrefixes
        let s := { s with maintenance := { s.maintenance with
          seenPrefixes := Function.update seen term (seen term ++ [noisePath]) } }
        if maintenanceMutationLimit ≤ applied + 1 then (applied + 1, s)
        else applyPrefixes term (applied + 1) rest s

/-- What a poll meets outside the service: the clock, and the order in which a set of
prefixes is iterated. -/
structure Surroundings where
  zone : Zone
  now : Int
  iterate : List Bytes → List Bytes

/-- The distinct noise prefixes of the rows, in the order the set yields them. -/
def noisePrefixes (around : Surroundings) (term : Bytes) (rows : List ResultItem) : List Bytes :=
  around.iterate
    (rows.filterMap fun row => defaultNoiseDirectoryPrefix platform.convention row.path term).dedup

def setPending (pending : Bool) (s : Service σ) : Service σ :=
  { s with maintenance := { s.maintenance with pending := pending } }

/-- Excludes what the rows of a query lead to. The term is kept only while that is
something not handled yet. -/
def excludeRows (around : Surroundings) (noiseName : Bytes) (rows : List ResultItem)
    (s : Service σ) : Service σ :=
  let term := s.maintenance.noiseTermIndex
  let (applied, s) := applyPrefixes platform library term 0
    (noisePrefixes platform around noiseName rows) s
  let next := if rows.isEmpty || applied == 0 then term + 1 else term
  { s with maintenance := { s.maintenance with
      noiseTermIndex := next
      pending := s.maintenance.pending && decide (next < noiseTerms.length) } }

def scrubTerm (around : Surroundings) (s : Service σ) : Service σ :=
  match noiseTerms[s.maintenance.noiseTermIndex]? with
  | none => s.setPending false
  | some noiseName =>
    let (outcome, s) := s.call (Loaded.search library around.zone s.dialect around.now noiseName 512)
    if !outcome.error.isEmpty then s.setPending false
    else excludeRows platform library around noiseName outcome.items s

/-- The fixed part of a poll; `false` where the roots could not be planned for. -/
def scrubFixed (s : Service σ) : Bool × Service σ :=
  let (ready, s) :=
    if s.maintenance.fixedReady then (true, s) else prepareFixedMaintenance platform library s
  (ready, if ready then applyFixed library maintenanceMutationLimit s else s)

/-- The poll behind the check that the runtime is idle. -/
def scrubIdle (around : Surroundings) (s : Service σ) : Service σ :=
  let (ready, s) := scrubFixed platform library s
  if !ready then s.setPending false
  else if s.maintenance.fixedIndex < s.maintenance.fixedExclusions.length then s
  else scrubTerm platform library around s

def scrubOneBatch (around : Surroundings) (s : Service σ) : Service σ :=
  if !s.maintenance.pending || !s.maintenance.enabled then s
  else
    let (status, s) := s.call (Loaded.status library)
    if status.indexing then s else scrubIdle platform library around s

end Service
end Such.IndexRootService
