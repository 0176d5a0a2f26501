import Such.Cli.IndexWorker
import Such.Runtime.IndexRootService.Maintenance
import Such.Runtime.IndexRootService.Preservation
import Such.Runtime.IndexRootService.RootView

/-! A request from its arguments to the exit code of the process that carries it out, over a
runtime of which one call fails: the code tells whether the roots are still the old ones. -/
namespace Such.IndexRootService
open ByteText LexicalPath IndexPathPolicy RuntimeClient KeyedList

section Accepted
variable {platform : Platform} {fault : Fault} {s t : Service Abi}

theorem map_cstr_prepared {prepared : PreparedRootSet} {paths : List Bytes}
    (clear : ∀ path ∈ paths, 0 ∉ path)
    (listed : prepared.roots.map (·.path) = uniqueBy (comparablePathKey platform) paths) :
    prepared.roots.map (cstr ·.path) = uniqueBy (comparablePathKey platform) paths := by
  rw [← listed]
  apply List.map_congr_left
  intro root member
  have inside : root.path ∈ uniqueBy (comparablePathKey platform) paths :=
    listed ▸ List.mem_map_of_mem member
  exact cstr_of_notMem (clear _ (uniqueBy_subset _ _ inside))

/-- A replacement that succeeds leaves one root for each key of the resolved ones. -/
theorem seeded_sameRoots {resolved : List ResolvedRoot} {prepared : PreparedRootSet}
    {previous : List Bytes} {u : Unit} (clear : ∀ root ∈ resolved, 0 ∉ root.path)
    (planned : prepareRootSet platform resolved = .ok prepared)
    (done : s.seedRootSet platform (Abi.library platform fault) prepared previous = (.ok u, t)) :
    SameRoots platform (resolved.map (·.path)) t.roots := by
  have paths : ∀ path ∈ resolved.map (·.path), 0 ∉ path := by
    intro path member
    obtain ⟨root, listed, rfl⟩ := List.mem_map.1 member
    exact clear root listed
  have installed := (seedRootSet_ok done).1.trans (map_cstr_prepared paths (prepareRootSet_paths planned))
  simp only [SameRoots]
  rw [installed, uniqueBy_uniqueBy]

theorem addRoot_accepted {root : Bytes} (held : Held platform s.roots)
    (clear : 0 ∉ (resolveRootRequest platform root).path)
    (done : s.addRoot platform (Abi.library platform fault) root = (.ok (), t)) :
    SameRoots platform (s.roots ++ [(resolveRootRequest platform root).path]) t.roots := by
  obtain ⟨values, u, listed, done⟩ := Service.andThen_eq_ok done
  obtain ⟨rfl, same, -⟩ := roots_ok held listed
  have asked : (resolvePersistedRoots platform s.roots ++ [resolveRootRequest platform root]).map
      (·.path) = s.roots ++ [(resolveRootRequest platform root).path] := by
    rw [List.map_append, resolvePersistedRoots_held held, map_resolvePersistedRoot_path]
    rfl
  dsimp only at done
  split at done
  · cases congrArg Prod.fst done
  · rename_i prepared planned
    split at done
    · have seeded := seeded_sameRoots (fun r member => ?_) planned done
      · rwa [asked] at seeded
      · rw [resolvePersistedRoots_held held, List.mem_append, List.mem_map, List.mem_singleton] at member
        rcases member with ⟨value, old, rfl⟩ | rfl
        · rw [resolvePersistedRoot_path]
          exact (held value old).1
        · exact clear
    · obtain ⟨_, v, excluded, done⟩ := Service.andThen_eq_ok done
      have kept := (applyExclusions_ok excluded).1.trans same
      split at done
      · rename_i present
        have taken := (any_sameRoot_iff held _).1 present
        have roots := (succeed_ok done).1.trans kept
        simp only [SameRoots]
        rw [roots, uniqueBy_append_singleton, insertBy_of_mem]
        exact (mem_map_foldl_insertBy _).2 (.inr taken)
      · obtain ⟨_, w, added, done⟩ := Service.andThen_eq_ok done
        apply sameRoots_of_eq
        rw [(succeed_ok done).1, (attempt_ok added).1]
        exact congrArg₂ (· ++ [·]) kept (cstr_of_notMem clear)

theorem replaceRoots_accepted {roots : List Bytes}
    (clear : ∀ root ∈ roots, 0 ∉ (resolveRootRequest platform root).path)
    (done : s.replaceRoots platform (Abi.library platform fault) roots = (.ok (), t)) :
    SameRoots platform (roots.map fun root => (resolveRootRequest platform root).path) t.roots := by
  simp only [Service.replaceRoots] at done
  split at done
  · cases congrArg Prod.fst done
  · rename_i prepared planned
    obtain ⟨values, u, listed, done⟩ := Service.andThen_eq_ok done
    have seeded := seeded_sameRoots (fun r member => ?_) planned done
    · rwa [List.map_map] at seeded
    · obtain ⟨root, asked, rfl⟩ := List.mem_map.1 member
      exact clear root asked

theorem reindexAsync_accepted (held : Held platform s.roots)
    (done : s.reindexAsync platform (Abi.library platform fault) = (.ok (), t)) :
    SameRoots platform s.roots t.roots := by
  obtain ⟨values, u, listed, done⟩ := Service.andThen_eq_ok done
  obtain ⟨rfl, same, -⟩ := roots_ok held listed
  split at done
  · exact sameRoots_of_eq ((succeed_ok done).1.trans same)
  · split at done
    · cases congrArg Prod.fst done
    · rename_i prepared planned
      rw [resolvePersistedRoots_held held] at planned
      have seeded := seeded_sameRoots (fun r member => ?_) planned done
      · rwa [map_resolvePersistedRoot_path] at seeded
      · obtain ⟨value, listed, rfl⟩ := List.mem_map.1 member
        rw [resolvePersistedRoot_path]
        exact (held value listed).1

end Accepted

section Settled
variable {σ : Type} {platform : Platform} {fault : Fault} {library : Library σ} {view : RootView σ}
  {s : Service σ}

/-- What an operation may leave as roots, refused and accepted. -/
def Settles (view : RootView σ) (refused accepted : List Bytes → Prop)
    (outcome : Except Bytes Unit × Service σ) : Prop :=
  match outcome with
  | (.error _, t) => refused (t.rootsIn view)
  | (.ok (), t) => accepted (t.rootsIn view)

theorem Service.Mirrors.settles {refused accepted : List Bytes → Prop}
    {x : Except Bytes Unit × Service σ} {y : Except Bytes Unit × Service Abi}
    (mirrors : Service.Mirrors view x y) (fails : ∀ e t, y = (.error e, t) → refused t.roots)
    (succeeds : ∀ t, y = (.ok (), t) → accepted t.roots) : Settles view refused accepted x := by
  obtain ⟨result | done, u⟩ := x
  · obtain ⟨e, t, made, same⟩ := mirrors.of_error
    simp only [Settles, same]
    exact fails e t made
  · obtain ⟨t, made, same⟩ := mirrors.of_ok
    simp only [Settles, same]
    exact succeeds t made

variable (tabled : Tabled platform fault library view) (held : Held platform (s.rootsIn view))
  (allowed : PolicyAllows platform (s.rootsIn view))
include tabled held allowed

theorem addRoot_settles {root : Bytes} (clear : 0 ∉ (resolveRootRequest platform root).path) :
    Settles view (SameRoots platform (s.rootsIn view))
      (SameRoots platform (s.rootsIn view ++ [(resolveRootRequest platform root).path]))
      (s.addRoot platform library root) :=
  (Service.addRoot_mirrors (t := s.shown view) tabled (view.shows_shown _) root).settles
    (addRoot_sameRoots root held allowed) fun _ => addRoot_accepted held clear

theorem replaceRoots_settles {roots : List Bytes}
    (clear : ∀ root ∈ roots, 0 ∉ (resolveRootRequest platform root).path) :
    Settles view (SameRoots platform (s.rootsIn view))
      (SameRoots platform (roots.map fun root => (resolveRootRequest platform root).path))
      (s.replaceRoots platform library roots) :=
  (Service.replaceRoots_mirrors (t := s.shown view) tabled (view.shows_shown _) roots).settles
    (replaceRoots_sameRoots roots held allowed) fun _ => replaceRoots_accepted clear

theorem reindexAsync_settles :
    Settles view (SameRoots platform (s.rootsIn view)) (SameRoots platform (s.rootsIn view))
      (s.reindexAsync platform library) :=
  (Service.reindexAsync_mirrors (t := s.shown view) tabled (view.shows_shown _)).settles
    (reindexAsync_sameRoots held allowed) fun _ => reindexAsync_accepted held

end Settled
end Such.IndexRootService

namespace Such.IndexWorker
open ByteText LexicalPath IndexPathPolicy RuntimeClient IndexRootService IndexWorkerLauncher

section Kept
variable {W σ : Type} {host : WorkerHost W σ} {P : σ → Prop} {s : Service σ}

/-- The runtime keeps the property between calls as well. -/
structure KeptAround (host : WorkerHost W σ) (P : σ → Prop) : Prop where
  polls : KeptByPolls host.library P
  waited : ∀ {r}, P r → P (host.waitForIdle r)
  crawls : ∀ {r} poll, P r → P (host.crawl poll r)

variable (kept : KeptAround host P)
include kept

theorem drain_has (left poll : Nat) (has : s.Has P) : (drain host left poll s).Has P := by
  induction left generalizing poll s with
  | zero => exact has
  | succ left ih =>
    simp only [drain]
    split
    · exact has
    · apply ih
      have ticked : (Service.scrubOneBatch host.platform host.library (host.around poll)
          { s with runtime := crawled host poll s.runtime }).Has P :=
        Service.scrubOneBatch_has kept.polls (host.around poll) (kept.crawls poll has)
      have seen := Service.status_has kept.polls ticked
      simp only [pollMaintenance]
      split
      · exact kept.waited seen
      · exact seen

/-- Whatever an accepted request comes to, it leaves a service that has the property. -/
theorem finish_has (diagnostic : Option (Stream W)) (w : W) (has : s.Has P) :
    ((finish host diagnostic s w).1.code = 0 ∨ (finish host diagnostic s w).1.code = 7 ∨
        (finish host diagnostic s w).1.code = 8) ∧
      ∃ t, (finish host diagnostic s w).1.service = some t ∧ t.Has P := by
  have waited : (waitForIdle host s).Has P := kept.waited has
  have seen := Service.status_has kept.polls waited
  have drained := drain_has kept maintenancePollLimit 0 seen
  have final := Service.status_has kept.polls drained
  simp only [finish]
  split
  · exact ⟨.inr (.inr rfl), _, rfl, seen⟩
  split
  · exact ⟨.inr (.inl rfl), _, rfl, drained⟩
  split
  · exact ⟨.inr (.inr rfl), _, rfl, final⟩
  · exact ⟨.inl rfl, _, rfl, final⟩

end Kept

/-- What an operation makes of the roots. -/
def requestedRoots (platform : IndexPathPolicy.Platform) (operation : IndexWorkerOperation)
    (roots before : List Bytes) : List Bytes :=
  let resolved := roots.map fun root => (resolveRootRequest platform root).path
  match operation with
  | .reindex => before
  | .addRoot => before ++ resolved
  | .replaceRoots => resolved

/-- A runtime that is found in the state `start`. What it does on its own leaves its roots alone. -/
structure Opens {W σ : Type} (host : WorkerHost W σ) (fault : Fault) (view : RootView σ) (start : σ)
    (w : W) : Prop where
  tabled : Tabled host.platform fault host.library view
  loads : (({} : Client σ).ensureReady host.library host.look w).1 = .ok ⟨[], start⟩
  waited : ∀ r, view.roots (host.waitForIdle r) = view.roots r
  crawls : ∀ poll r, view.roots (host.crawl poll r) = view.roots r

section Request
variable {W σ : Type} {host : WorkerHost W σ} {fault : Fault} {view : RootView σ} {start : σ} {w : W}

theorem Opens.kept (opens : Opens host fault view start w) (roots : List Bytes) :
    KeptAround host (view.roots · = roots) where
  polls := ⟨(opens.tabled.listRoots_roots _).trans,
    fun path indexed => (opens.tabled.setIndexed_roots path indexed _).trans,
    (opens.tabled.status _).trans⟩
  waited := (opens.waited _).trans
  crawls poll := (opens.crawls poll _).trans

/-- An operation that is refused leaves the old roots, an accepted one the requested ones. -/
theorem perform_settles (opens : Opens host fault view start w) {s : Service σ}
    (held : Held host.platform (s.rootsIn view)) (allowed : PolicyAllows host.platform (s.rootsIn view))
    {operation : IndexWorkerOperation} {roots : List Bytes}
    (addsOne : operation = .addRoot → roots.length = 1)
    (clear : ∀ root ∈ roots, 0 ∉ (resolveRootRequest host.platform root).path) :
    Settles view (SameRoots host.platform (s.rootsIn view))
      (SameRoots host.platform (requestedRoots host.platform operation roots (s.rootsIn view)))
      (perform host operation roots s) := by
  cases operation with
  | reindex => exact reindexAsync_settles opens.tabled held allowed
  | addRoot =>
    obtain ⟨root, rfl⟩ := List.length_eq_one_iff.1 (addsOne rfl)
    exact addRoot_settles opens.tabled held allowed (clear root List.mem_cons_self)
  | replaceRoots => exact replaceRoots_settles opens.tabled held allowed clear

theorem readWorker_addsOne {argv : List Bytes} {operation : IndexWorkerOperation}
    {options : WorkerOptions} (read : readWorker argv = .ok (operation, options))
    (adds : operation = .addRoot) : options.roots.length = 1 := by
  subst adds
  simp only [readWorker] at read
  split at read
  · cases read
  split at read
  · cases read
  split_ifs at read with _ several _ named <;> cases read
  by_contra other
  exact several ⟨named, other⟩

/-- The exit code of a worker tells what it did to the roots: after 6 they are the old ones, after
every other code the requested ones, whichever call of the runtime fails. -/
theorem exit_code_tells_roots {argv : List Bytes} {operation : IndexWorkerOperation}
    {options : WorkerOptions} (read : readWorker argv = .ok (operation, options))
    (opens : Opens host fault view start (openDiagnostic host options w).2)
    (held : Held host.platform (view.roots start))
    (allowed : PolicyAllows host.platform (view.roots start))
    (clear : ∀ root ∈ options.roots, 0 ∉ (resolveRootRequest host.platform root).path) :
    let ended := (runIndexWorker host argv w).1
    ∃ s, ended.service = some s ∧
      (ended.code = 6 ∧ SameRoots host.platform (view.roots start) (s.rootsIn view) ∨
        (ended.code = 0 ∨ ended.code = 7 ∨ ended.code = 8) ∧
          SameRoots host.platform
            (requestedRoots host.platform operation options.roots (view.roots start))
            (s.rootsIn view)) := by
  intro ended
  have loads := opens.loads
  have performed := perform_settles opens (s := serve host ⟨[], start⟩) held allowed
    (readWorker_addsOne read) clear
  simp only [ended, runIndexWorker, read]
  generalize openDiagnostic host options w = opened at loads opens
  obtain ⟨diagnostic, w⟩ := opened
  dsimp only at loads ⊢
  generalize ({} : Client σ).ensureReady host.library host.look w = loaded at loads
  obtain ⟨result, w'⟩ := loaded
  cases loads
  simp only [carryOut]
  generalize perform host operation options.roots (serve host ⟨[], start⟩) = outcome at performed
  obtain ⟨result | done, t⟩ := outcome
  · exact ⟨t, rfl, .inl ⟨rfl, performed⟩⟩
  · obtain ⟨code, u, left, same⟩ := finish_has (opens.kept (t.rootsIn view)) diagnostic w' (s := t) rfl
    have roots : u.rootsIn view = t.rootsIn view := same
    refine ⟨u, left, .inr ⟨code, ?_⟩⟩
    rw [roots]
    exact performed

end Request

/-- A runtime with an index of its own, over the table of its roots. Changing the roots starts a
crawl. -/
structure Crawler where
  table : Abi
  toCrawl : Nat := 0
  files : List AbiResult := []

def Crawler.call (starts : Bool) {β : Type} (answer : Abi → β × Abi) (r : Crawler) : β × Crawler :=
  ((answer r.table).1, { r with
    table := (answer r.table).2
    toCrawl := if starts then r.files.length else r.toCrawl })

/-- Its status tells of the crawl, and a search finds every file under an excluded tree too. -/
def Crawler.library (platform : Platform) (fault : Fault) : Library Crawler where
  view r := { (Abi.library platform fault).view r.table with
    listExtensions := r.files.filterMap (·.extension)
    search := fun _ _ _ => .ok r.files }
  addRoot root := Crawler.call true ((Abi.library platform fault).addRoot root)
  removeRoot root := Crawler.call true ((Abi.library platform fault).removeRoot root)
  replaceRoots roots := Crawler.call true ((Abi.library platform fault).replaceRoots roots)
  listRoots := Crawler.call false (Abi.library platform fault).listRoots
  setIndexed path indexed := Crawler.call false ((Abi.library platform fault).setIndexed path indexed)
  setPinned path pinned := Crawler.call false ((Abi.library platform fault).setPinned path pinned)
  reindexAsync r := { r with toCrawl := r.files.length }
  status r := (some { indexing := r.toCrawl ≠ 0, indexedFiles := r.files.length - r.toCrawl }, r)
  generation r := r.table.calls

def Crawler.view : RootView Crawler where
  roots r := r.table.roots
  calls r := r.table.calls

theorem fails_congr {fault : Fault} {a b : Abi} (calls : a.calls = b.calls) :
    a.fails fault = b.fails fault := by rw [Abi.fails, Abi.fails, calls]

/-- Two tables with the same roots that have answered as many calls answer the next one alike. -/
theorem attempt_alike {fault : Fault} (effect : Abi → Abi)
    (local_ : ∀ {a b : Abi}, a.roots = b.roots → (effect a).roots = (effect b).roots) {a b : Abi}
    (roots : a.roots = b.roots) (calls : a.calls = b.calls) :
    (Abi.attempt fault effect a).1 = (Abi.attempt fault effect b).1 ∧
      (Abi.attempt fault effect a).2.roots = (Abi.attempt fault effect b).2.roots ∧
      (Abi.attempt fault effect a).2.calls = (Abi.attempt fault effect b).2.calls := by
  simp only [Abi.attempt, fails_congr calls]
  cases b.fails fault with
  | true => exact ⟨rfl, roots, congrArg (· + 1) calls⟩
  | false => exact ⟨rfl, local_ roots, congrArg (· + 1) calls⟩

theorem Crawler.tabled (platform : Platform) (fault : Fault) :
    Tabled platform fault (Crawler.library platform fault) Crawler.view where
  addRoot root _ _ same := attempt_alike _ (fun roots => congrArg (· ++ [root]) roots) same.1 same.2
  replaceRoots roots _ _ same := attempt_alike _ (fun _ => rfl) same.1 same.2
  listRoots {r a} same := by
    have fails : r.table.fails fault = a.fails fault := fails_congr same.2
    have roots : r.table.roots = a.roots := same.1
    refine ⟨?_, roots, congrArg (· + 1) same.2⟩
    simp only [Crawler.library, Crawler.call, Abi.library, fails, roots]
  setIndexed path indexed _ _ same :=
    attempt_alike (Abi.markIndexed path indexed) (fun roots => roots) same.1 same.2
  setPinned path pinned _ _ same := attempt_alike id (fun roots => roots) same.1 same.2
  reindexAsync := id
  status _ := rfl

/-- A worker beside a runtime with two roots of which the call of this number fails. -/
def lockedHost (call : Nat) : WorkerHost Unit Crawler where
  platform := .windows sharedHost
  dialect := .windows
  library := Crawler.library (.windows sharedHost) (some (call, lit "database is locked"))
  look w := ({ libraryPath := lit "such_private_runtime.dll"
               create := fun _ => some { table := twoRoots.runtime.runtime
                                         files := [namedRow 1 "config.txt" "D:\\work\\.git\\config.txt"] }
               load := fun r => (true, r) }, w)
  waitForIdle r := { r with toCrawl := 0 }
  crawl _ r := { r with toCrawl := r.toCrawl - 1 }
  around _ := ⟨CivilTime.Zone.utc, 1700000000, id⟩
  openTrunc _ w := some ({ write := fun _ w => w }, w)

theorem lockedHost_opens (call : Nat) :
    Opens (lockedHost call) (some (call, lit "database is locked")) Crawler.view
      { table := twoRoots.runtime.runtime
        files := [namedRow 1 "config.txt" "D:\\work\\.git\\config.txt"] } () where
  tabled := Crawler.tabled _ _
  loads := rfl
  waited _ := rfl
  crawls _ _ := rfl

/-- The database is locked while the second new root is put in: the worker ends with 6 over the two
old roots. -/
theorem locked_replacement_rolled_back :
    let ended := (runIndexWorker (lockedHost 5) (argv (lit "SuchCLI.exe") (workerArguments
      { operation := .replaceRoots, roots := [lit "E:\\a", lit "E:\\b"] })) ()).1
    ∃ s, ended.service = some s ∧
      (ended.code = 6 ∧ SameRoots (.windows sharedHost) twoRoots.roots (s.rootsIn Crawler.view) ∨
        (ended.code = 0 ∨ ended.code = 7 ∨ ended.code = 8) ∧
          SameRoots (.windows sharedHost) [lit "E:\\a", lit "E:\\b"] (s.rootsIn Crawler.view)) := by
  have read : readWorker (argv (lit "SuchCLI.exe") (workerArguments
      { operation := .replaceRoots, roots := [lit "E:\\a", lit "E:\\b"] })) =
        .ok (.replaceRoots, { roots := [lit "E:\\a", lit "E:\\b"] }) := by decide +kernel
  exact exit_code_tells_roots read (lockedHost_opens 5) twoRoots_reachable.held twoRoots_allowed
    (by decide +kernel)

end Such.IndexWorker
