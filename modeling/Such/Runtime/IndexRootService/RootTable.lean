import Such.Runtime.IndexRootService.Rollback

/-! The runtime's root list and exclusion table over whole runs of root operations, for
any policy planner. -/
namespace Such.IndexRootService
open ByteText LexicalPath IndexPathPolicy RuntimeClient KeyedList

namespace Service

/-- The exclusion table. -/
def table (s : Service Abi) : List Bytes := s.runtime.runtime.excluded

@[simp] theorem table_requestMaintenance (s : Service Abi) : s.requestMaintenance.table = s.table := by
  simp only [requestMaintenance]
  split <;> rfl

end Service

section Calls
variable {platform : Platform} {fault : Fault} {s t : Service Abi}

theorem attempt_call (effect : Abi → Abi) (s : Service Abi) :
    (∃ e t, s.call (Loaded.mutate (Abi.library platform fault) (Abi.attempt fault effect)) =
        (.error e, t) ∧ t.roots = s.roots ∧ t.table = s.table) ∨
      ∃ t, s.call (Loaded.mutate (Abi.library platform fault) (Abi.attempt fault effect)) =
        (.ok (), t) ∧ t.roots = (effect s.runtime.runtime).roots ∧
          t.table = (effect s.runtime.runtime).excluded := by
  simp only [Service.call, Loaded.mutate, Abi.attempt]
  cases s.runtime.runtime.fails fault with
  | true => exact .inl ⟨_, _, rfl, rfl, rfl⟩
  | false => exact .inr ⟨_, rfl, rfl, rfl⟩

theorem attempt_ok {effect : Abi → Abi} {u : Unit}
    (done : s.call (Loaded.mutate (Abi.library platform fault) (Abi.attempt fault effect)) = (.ok u, t)) :
    t.roots = (effect s.runtime.runtime).roots ∧ t.table = (effect s.runtime.runtime).excluded := by
  rcases @attempt_call platform fault effect s with ⟨e, v, refused, _⟩ | ⟨v, made, roots, table⟩
  · cases congrArg Prod.fst (done.symm.trans refused)
  · cases congrArg Prod.snd (done.symm.trans made)
    exact ⟨roots, table⟩

theorem attempt_error {effect : Abi → Abi} {e : Bytes}
    (failed : s.call (Loaded.mutate (Abi.library platform fault) (Abi.attempt fault effect)) =
      (.error e, t)) : t.roots = s.roots ∧ t.table = s.table := by
  rcases @attempt_call platform fault effect s with ⟨_, v, refused, roots, table⟩ | ⟨v, made, _⟩
  · cases congrArg Prod.snd (failed.symm.trans refused)
    exact ⟨roots, table⟩
  · cases congrArg Prod.fst (failed.symm.trans made)

theorem applyExclusion_call (excluded : Bytes) (s : Service Abi) :
    (∃ e t, s.applyExclusion (Abi.library platform fault) excluded = (.error e, t) ∧
        t.roots = s.roots ∧ t.table = s.table) ∨
      ∃ t, s.applyExclusion (Abi.library platform fault) excluded = (.ok (), t) ∧
        t.roots = s.roots ∧ t.table = s.table ++ [cstr excluded] := by
  simp only [Service.applyExclusion]
  rcases @attempt_call platform fault (Abi.markIndexed (cstr excluded) false) s with
    ⟨e, t, refused, same⟩ | ⟨t, made, changed⟩
  · have refused : s.call (Loaded.setIndexed (Abi.library platform fault) excluded false) =
        (.error e, t) := refused
    rw [refused]
    exact .inl ⟨_, t, rfl, same⟩
  · have made : s.call (Loaded.setIndexed (Abi.library platform fault) excluded false) =
        (.ok (), t) := made
    rw [made]
    exact .inr ⟨t, rfl, changed⟩

theorem applyExclusions_ok {exclusions : List Bytes} {u : Unit}
    (done : s.applyExclusions (Abi.library platform fault) exclusions = (.ok u, t)) :
    t.roots = s.roots ∧ t.table = s.table ++ exclusions.map cstr := by
  induction exclusions generalizing s with
  | nil =>
    cases done
    exact ⟨rfl, (List.append_nil _).symm⟩
  | cons excluded rest ih =>
    obtain ⟨_, v, first, later⟩ := Service.andThen_eq_ok done
    obtain ⟨roots, table⟩ := ih later
    rcases @applyExclusion_call platform fault excluded s with ⟨_, _, refused, _⟩ | ⟨w, made, same, grown⟩
    · cases congrArg Prod.fst (first.symm.trans refused)
    · cases congrArg Prod.snd (first.symm.trans made)
      rw [roots, table, same, grown, List.append_assoc]
      exact ⟨rfl, rfl⟩

/-- Excluding takes nothing out of the table, even where it breaks off. -/
theorem applyExclusions_subset (exclusions : List Bytes) (s : Service Abi) :
    s.table ⊆ (s.applyExclusions (Abi.library platform fault) exclusions).2.table := by
  induction exclusions generalizing s with
  | nil => exact List.Subset.refl _
  | cons excluded rest ih =>
    simp only [Service.applyExclusions]
    rcases @applyExclusion_call platform fault excluded s with ⟨_, v, refused, _, same⟩ | ⟨v, made, _, grown⟩
    · rw [refused, Service.andThen_error, same]
      exact List.Subset.refl _
    · rw [made, Service.andThen_ok]
      apply List.Subset.trans _ (ih v)
      rw [grown]
      exact List.subset_append_left _ _

theorem addRoots_ok {added : List ResolvedRoot} {u : Unit}
    (done : s.addRoots (Abi.library platform fault) added = (.ok u, t)) :
    t.roots = s.roots ++ added.map (cstr ·.path) ∧ t.table = s.table := by
  induction added generalizing s with
  | nil =>
    cases done
    exact ⟨(List.append_nil _).symm, rfl⟩
  | cons root rest ih =>
    obtain ⟨_, v, first, later⟩ := Service.andThen_eq_ok done
    obtain ⟨grown, same⟩ := attempt_ok first
    obtain ⟨roots, table⟩ := ih later
    rw [roots, table, grown, same]
    exact ⟨List.append_assoc _ _ _, rfl⟩

/-- A full replacement leaves the prepared roots and the prepared exclusions, no others. -/
theorem applyPreparedRootSet_ok {prepared : PreparedRootSet} {u : Unit}
    (done : s.applyPreparedRootSet (Abi.library platform fault) prepared = (.ok u, t)) :
    t.roots = prepared.roots.map (cstr ·.path) ∧ t.table = prepared.exclusions.map cstr := by
  obtain ⟨_, v, reset, done⟩ := Service.andThen_eq_ok done
  obtain ⟨_, w, excluded, added⟩ := Service.andThen_eq_ok done
  obtain ⟨cleared, blank⟩ := attempt_ok reset
  obtain ⟨kept, table⟩ := applyExclusions_ok excluded
  obtain ⟨roots, same⟩ := addRoots_ok added
  rw [roots, same, kept, table, cleared, blank]
  exact ⟨rfl, rfl⟩

theorem succeed_ok {u : Unit} (done : s.succeed = (.ok u, t)) :
    t.roots = s.roots ∧ t.table = s.table := by
  cases done
  exact ⟨s.roots_requestMaintenance, s.table_requestMaintenance⟩

theorem seedRootSet_ok {planner : Planner} {prepared : PreparedRootSet} {previous : List Bytes} {u : Unit}
    (done : s.seedRootSet platform (Abi.library platform fault) prepared previous planner = (.ok u, t)) :
    t.roots = prepared.roots.map (cstr ·.path) ∧ t.table = prepared.exclusions.map cstr := by
  simp only [Service.seedRootSet] at done
  split at done
  · cases congrArg Prod.fst done
  · rename_i v applied
    obtain ⟨roots, table⟩ := applyPreparedRootSet_ok applied
    obtain ⟨same, kept⟩ := succeed_ok done
    exact ⟨same.trans roots, kept.trans table⟩

theorem roots_table (s : Service Abi) :
    (s.call (Loaded.roots (Abi.library platform fault))).2.table = s.table := by
  have same : ((Abi.library platform fault).listRoots s.runtime.runtime).2.excluded = s.table := rfl
  simp only [Service.call, Loaded.roots]
  rw [← same]
  rcases (Abi.library platform fault).listRoots s.runtime.runtime with ⟨_ | _, runtime⟩ <;> rfl

theorem roots_ok {values : List Bytes} (held : Held platform s.roots)
    (listed : s.call (Loaded.roots (Abi.library platform fault)) = (.ok values, t)) :
    values = s.roots ∧ t.roots = s.roots ∧ t.table = s.table := by
  have table := @roots_table platform fault s
  rcases @roots_call platform fault s held with ⟨_, _, refused, _⟩ | ⟨u, answer, same, _⟩
  · cases congrArg Prod.fst (listed.symm.trans refused)
  · rw [listed] at table
    cases listed.symm.trans answer
    exact ⟨rfl, same, table⟩

end Calls

section Requests
variable (platform : Platform)

/-- The path of a request, with the override it would get as a root listed before. -/
def Requested (root : Bytes) : Prop :=
  (0 ∉ root ∧ isPath platform root = true) ∧
    ∃ request, resolveRootRequest platform request = resolvePersistedRoot platform root

/-- A request that is resolved to such a path. -/
def Requestable (request : Bytes) : Prop :=
  let root := (resolveRootRequest platform request).path
  (0 ∉ root ∧ isPath platform root = true) ∧
    resolveRootRequest platform request = resolvePersistedRoot platform root

/-- Made absolute, every spelling of an AppData folder stays that folder. -/
def AppDataSettled : Prop :=
  match platform with
  | .posix _ => True
  | .windows host => ∀ folder ∈ [KnownFolder.roamingAppData, .localAppData], ∀ path,
      pathKey platform path = pathKey platform (normalizedAbsolute platform (host.knownFolder folder)) →
        pathKey platform (normalizedAbsolute platform path) =
          pathKey platform (normalizedAbsolute platform (host.knownFolder folder))

/-- What the policy is asked about a root list. -/
def requests (roots : List Bytes) : List IndexPolicyRootRequest :=
  roots.map fun root => ⟨root, (resolvePersistedRoot platform root).overrideMode⟩

variable {platform}

theorem Requested.held {root : Bytes} (requested : Requested platform root) :
    0 ∉ root ∧ pathFromUtf8 platform root = root := by
  have held := held_cstr requested.1.2
  rwa [cstr_of_notMem requested.1.1] at held

theorem Requestable.requested {request : Bytes} (requestable : Requestable platform request) :
    Requested platform (resolveRootRequest platform request).path :=
  ⟨requestable.1, request, requestable.2⟩

theorem resolvePersistedRoot_mode {root : Bytes} :
    (resolvePersistedRoot platform root).overrideMode = .explicitCurrentUserAppData ↔
      isCurrentUserManualAppdataRoot platform root = true := by
  simp only [resolvePersistedRoot]
  cases isCurrentUserManualAppdataRoot platform root <;> simp

/-- Only an alias is resolved to an override, and to an AppData folder. -/
theorem resolveRootRequest_explicit {host : WindowsHost} {request : Bytes}
    (explicit : (resolveRootRequest (.windows host) request).overrideMode = .explicitCurrentUserAppData) :
    ∃ folder ∈ [KnownFolder.roamingAppData, .localAppData], host.knownFolder folder ≠ [] ∧
      (resolveRootRequest (.windows host) request).path =
        normalizedAbsolute (.windows host) (host.knownFolder folder) := by
  unfold resolveRootRequest at explicit ⊢
  dsimp only at explicit ⊢
  split
  · rename_i resolved found
    split at found
    · unfold resolveWindowsManualIndexAlias at found
      dsimp only at found
      split at found
      · rename_i named
        rw [Bool.and_eq_true] at named
        cases found
        refine ⟨.roamingAppData, by simp, ?_, rfl⟩
        intro empty
        simp [empty] at named
      · split at found
        · rename_i named
          rw [Bool.and_eq_true] at named
          cases found
          refine ⟨.localAppData, by simp, ?_, rfl⟩
          intro empty
          simp [empty] at named
        · cases found
    · cases found
  · rename_i missed
    rw [missed] at explicit
    cases explicit

theorem explicit_of_key (settled : AppDataSettled platform) {root other : Bytes}
    (requested : Requested platform root)
    (same : comparablePathKey platform root = comparablePathKey platform other)
    (explicit : (resolvePersistedRoot platform root).overrideMode = .explicitCurrentUserAppData) :
    (resolvePersistedRoot platform other).overrideMode = .explicitCurrentUserAppData := by
  cases platform with
  | posix absolute => exact explicit
  | windows host =>
    obtain ⟨_, request, resolved⟩ := requested
    rw [← resolved] at explicit
    obtain ⟨folder, known, found, path⟩ := resolveRootRequest_explicit explicit
    rw [resolved, resolvePersistedRoot_path] at path
    have key : pathKey (.windows host) other =
        pathKey (.windows host) (normalizedAbsolute (.windows host) (host.knownFolder folder)) :=
      same.symm.trans (congrArg (pathKey (.windows host)) path)
    rw [resolvePersistedRoot_mode]
    simp only [isCurrentUserManualAppdataRoot]
    apply List.any_eq_true.mpr
    refine ⟨host.knownFolder folder, List.mem_map_of_mem (f := host.knownFolder) known, ?_⟩
    rw [settled folder known other key]
    simp [found]

/-- Requested roots under one key have one override. -/
theorem mode_of_key (settled : AppDataSettled platform) {root other : Bytes}
    (requested : Requested platform root) (requested' : Requested platform other)
    (same : comparablePathKey platform root = comparablePathKey platform other) :
    (resolvePersistedRoot platform root).overrideMode =
      (resolvePersistedRoot platform other).overrideMode := by
  have forward := explicit_of_key settled requested same
  have backward := explicit_of_key settled requested' same.symm
  cases mode : (resolvePersistedRoot platform root).overrideMode <;>
    cases mode' : (resolvePersistedRoot platform other).overrideMode <;> simp_all

theorem mergeRoot_persisted (settled : AppDataSettled platform) {root : Bytes}
    {unique : List Bytes} (requested : Requested platform root)
    (others : ∀ other ∈ unique, Requested platform other) :
    mergeRoot platform (resolvePersistedRoot platform root)
        (unique.map (resolvePersistedRoot platform)) =
      (insertBy (comparablePathKey platform) root unique).map (resolvePersistedRoot platform) := by
  induction unique with
  | nil => rfl
  | cons other rest ih =>
    rw [List.map_cons, mergeRoot, resolvePersistedRoot_path, resolvePersistedRoot_path]
    by_cases same : comparablePathKey platform other = comparablePathKey platform root
    · have taken : comparablePathKey platform root ∈ (other :: rest).map (comparablePathKey platform) := by
        rw [← same]
        exact List.mem_cons_self
      have mode := mode_of_key settled (others other List.mem_cons_self) requested same
      have whole : ({ path := other
                      overrideMode := (resolvePersistedRoot platform other).overrideMode } : ResolvedRoot) =
          resolvePersistedRoot platform other := by
        simp only [resolvePersistedRoot]
        split <;> rfl
      rw [if_pos same, insertBy_of_mem _ taken, ← mode, List.map_cons, whole, ite_self]
    · rw [if_neg same, insertBy_cons_of_ne _ (fun equal => same equal.symm), List.map_cons,
        ih fun other member => others other (List.mem_cons_of_mem _ member)]

/-- Merging requested roots leaves each with the override it would get on its own. -/
theorem uniqueRoots_persisted (settled : AppDataSettled platform) {roots : List Bytes}
    (requested : ∀ root ∈ roots, Requested platform root) :
    uniqueRoots platform (roots.map (resolvePersistedRoot platform)) =
      (uniqueBy (comparablePathKey platform) roots).map (resolvePersistedRoot platform) := by
  induction roots using List.reverseRecOn with
  | nil => rfl
  | append_singleton roots root ih =>
    have before := ih fun other member => requested other (List.mem_append_left _ member)
    rw [List.map_append, uniqueRoots, List.foldl_append, uniqueBy_append_singleton]
    simp only [uniqueRoots] at before
    rw [before]
    apply mergeRoot_persisted settled (requested root (List.mem_append_right _ List.mem_cons_self))
    intro other member
    exact requested other (List.mem_append_left _ (uniqueBy_subset _ _ member))

/-- A prepared root set is the planner's answer about its own roots. -/
theorem prepareRootSet_persisted (settled : AppDataSettled platform) {planner : Planner}
    {roots : List Bytes} {prepared : PreparedRootSet}
    (requested : ∀ root ∈ roots, Requested platform root)
    (planned : prepareRootSet platform (roots.map (resolvePersistedRoot platform)) planner =
      .ok prepared) :
    let unique := uniqueBy (comparablePathKey platform) roots
    (planner (requests platform unique)).rootAllowed = true ∧
      prepared.roots.map (cstr ·.path) = unique ∧
      prepared.exclusions = (planner (requests platform unique)).exclusions := by
  intro unique
  have asked : (uniqueRoots platform (roots.map (resolvePersistedRoot platform))).map
      (fun root => (⟨root.path, root.overrideMode⟩ : IndexPolicyRootRequest)) =
        requests platform unique := by
    rw [uniqueRoots_persisted settled requested, List.map_map]
    apply List.map_congr_left
    intro root _
    simp only [Function.comp_apply, resolvePersistedRoot_path]
  unfold prepareRootSet at planned
  dsimp only at planned
  rw [asked, uniqueRoots_persisted settled requested] at planned
  split at planned
  · cases planned
  · rename_i allowed
    cases planned
    refine ⟨by simpa using allowed, ?_, rfl⟩
    rw [List.map_map]
    apply (List.map_congr_left ?_).trans (List.map_id _)
    intro root member
    rw [Function.comp_apply, resolvePersistedRoot_path]
    exact cstr_of_notMem (requested root (uniqueBy_subset _ _ member)).1.1

end Requests

/-- A successful run of root operations from an empty runtime, the last operation first.
Every operation has a fault of its own, which it does not meet. -/
inductive Attained (platform : Platform) (planner : Planner) : List Operation → Service Abi → Prop
  | empty {s : Service Abi} : s.roots = [] → s.table = [] → Attained platform planner [] s
  | addRoot (fault : Fault) {ops : List Operation} {s t : Service Abi} {root : Bytes} :
      Attained platform planner ops s → Requestable platform root →
      (Operation.addRoot root).run platform fault s planner = (.ok (), t) →
      Attained platform planner (.addRoot root :: ops) t
  | replaceRoots (fault : Fault) {ops : List Operation} {s t : Service Abi} {roots : List Bytes} :
      Attained platform planner ops s → (∀ root ∈ roots, Requestable platform root) →
      (Operation.replaceRoots roots).run platform fault s planner = (.ok (), t) →
      Attained platform planner (.replaceRoots roots :: ops) t
  | removeRoot (fault : Fault) {ops : List Operation} {s t : Service Abi} {root : Bytes} :
      Attained platform planner ops s → 0 ∉ (resolveRootRequest platform root).path →
      (Operation.removeRoot root).run platform fault s planner = (.ok (), t) →
      Attained platform planner (.removeRoot root :: ops) t
  | reindexAsync (fault : Fault) {ops : List Operation} {s t : Service Abi} :
      Attained platform planner ops s →
      Operation.reindexAsync.run platform fault s planner = (.ok (), t) →
      Attained platform planner (.reindexAsync :: ops) t

section Runs
variable {platform : Platform} {planner : Planner} {fault : Fault} {s t : Service Abi}

/-- Requested roots, no two under one key. -/
structure RootSet (platform : Platform) (roots : List Bytes) : Prop where
  requested : ∀ root ∈ roots, Requested platform root
  distinct : (roots.map (comparablePathKey platform)).Nodup

/-- The planner accepts the roots, and what it excludes for them is excluded. -/
structure Planned (platform : Platform) (planner : Planner) (s : Service Abi) : Prop where
  accepted : (planner (requests platform s.roots)).rootAllowed = true
  excluded : ∀ excluded ∈ (planner (requests platform s.roots)).exclusions, cstr excluded ∈ s.table

/-- The planner accepts the roots, and nothing else is excluded. -/
structure Exact (platform : Platform) (planner : Planner) (s : Service Abi) : Prop where
  accepted : (planner (requests platform s.roots)).rootAllowed = true
  excluded : s.table = (planner (requests platform s.roots)).exclusions.map cstr

theorem Exact.planned (exact : Exact platform planner s) : Planned platform planner s := by
  refine ⟨exact.accepted, ?_⟩
  intro excluded member
  rw [exact.excluded]
  exact List.mem_map_of_mem member

theorem RootSet.held (set : RootSet platform s.roots) : Held platform s.roots :=
  fun root member => (set.requested root member).held

theorem rootSet_uniqueBy {roots : List Bytes} (requested : ∀ root ∈ roots, Requested platform root) :
    RootSet platform (uniqueBy (comparablePathKey platform) roots) :=
  ⟨fun root member => requested root (uniqueBy_subset _ _ member), uniqueBy_nodup _ _⟩

/-- A full replacement installs a root set together with its plan. -/
theorem seedRootSet_exact (settled : AppDataSettled platform) {roots previous : List Bytes}
    {prepared : PreparedRootSet} {u : Unit} (requested : ∀ root ∈ roots, Requested platform root)
    (planned : prepareRootSet platform (roots.map (resolvePersistedRoot platform)) planner =
      .ok prepared)
    (done : s.seedRootSet platform (Abi.library platform fault) prepared previous planner =
      (.ok u, t)) :
    t.roots = uniqueBy (comparablePathKey platform) roots ∧ Exact platform planner t := by
  obtain ⟨accepted, paths, exclusions⟩ := prepareRootSet_persisted settled requested planned
  obtain ⟨installed, table⟩ := seedRootSet_ok done
  have same : t.roots = uniqueBy (comparablePathKey platform) roots := installed.trans paths
  exact ⟨same, same ▸ accepted, by rw [table, same, exclusions]⟩

theorem reseed_rootSet (settled : AppDataSettled platform) {roots previous : List Bytes}
    {prepared : PreparedRootSet} {u : Unit} (requested : ∀ root ∈ roots, Requested platform root)
    (planned : prepareRootSet platform (roots.map (resolvePersistedRoot platform)) planner =
      .ok prepared)
    (done : s.seedRootSet platform (Abi.library platform fault) prepared previous planner =
      (.ok u, t)) : RootSet platform t.roots ∧ Exact platform planner t := by
  obtain ⟨installed, exact⟩ := seedRootSet_exact settled requested planned done
  exact ⟨installed ▸ rootSet_uniqueBy requested, exact⟩

/-- Exclusions added to the table of a root set that the runtime has by other means. -/
theorem applyExclusions_planned (settled : AppDataSettled platform) {roots : List Bytes}
    {prepared : PreparedRootSet} {u : Unit} (requested : ∀ root ∈ roots, Requested platform root)
    (planned : prepareRootSet platform (roots.map (resolvePersistedRoot platform)) planner =
      .ok prepared)
    (done : s.applyExclusions (Abi.library platform fault) prepared.exclusions = (.ok u, t)) :
    t.roots = s.roots ∧
      ∀ v : Service Abi, v.roots = uniqueBy (comparablePathKey platform) roots → v.table = t.table →
        Planned platform planner v := by
  obtain ⟨accepted, _, exclusions⟩ := prepareRootSet_persisted settled requested planned
  obtain ⟨same, table⟩ := applyExclusions_ok done
  refine ⟨same, ?_⟩
  intro v installed kept
  refine ⟨installed ▸ accepted, ?_⟩
  intro excluded member
  rw [installed, ← exclusions] at member
  rw [kept, table]
  exact List.mem_append_right _ (List.mem_map_of_mem member)

theorem any_sameRoot_iff {roots : List Bytes} (held : Held platform roots) (requested : ResolvedRoot) :
    (resolvePersistedRoots platform roots).any (Service.sameRoot platform · requested) = true ↔
      comparablePathKey platform requested.path ∈ roots.map (comparablePathKey platform) := by
  rw [resolvePersistedRoots_held held, List.any_map, List.any_eq_true, List.mem_map]
  apply exists_congr
  intro root
  simp [Service.sameRoot, resolvePersistedRoot_path]

theorem addRoot_planned (settled : AppDataSettled platform) {root : Bytes}
    (set : RootSet platform s.roots) (requestable : Requestable platform root)
    (done : (Operation.addRoot root).run platform fault s planner = (.ok (), t)) :
    RootSet platform t.roots ∧ Planned platform planner t := by
  obtain ⟨values, u, listed, done⟩ := Service.andThen_eq_ok done
  obtain ⟨rfl, same, _⟩ := roots_ok set.held listed
  dsimp only at done
  have asked : resolvePersistedRoots platform s.roots ++ [resolveRootRequest platform root] =
      (s.roots ++ [(resolveRootRequest platform root).path]).map (resolvePersistedRoot platform) := by
    rw [resolvePersistedRoots_held set.held, List.map_append, List.map_singleton, ← requestable.2]
  have requested : ∀ listed ∈ s.roots ++ [(resolveRootRequest platform root).path],
      Requested platform listed := by
    intro listed member
    rcases List.mem_append.mp member with old | new
    · exact set.requested listed old
    · exact List.mem_singleton.mp new ▸ requestable.requested
  have unique : uniqueBy (comparablePathKey platform)
      (s.roots ++ [(resolveRootRequest platform root).path]) =
        insertBy (comparablePathKey platform) (resolveRootRequest platform root).path s.roots := by
    rw [uniqueBy_append_singleton, uniqueBy_of_nodup _ set.distinct]
  have whole := rootSet_uniqueBy requested
  rw [unique] at whole
  split at done
  · cases congrArg Prod.fst done
  · rename_i prepared planned
    rw [asked] at planned
    split at done
    · obtain ⟨set', exact⟩ := reseed_rootSet settled requested planned done
      exact ⟨set', exact.planned⟩
    · obtain ⟨_, v, excluded, done⟩ := Service.andThen_eq_ok done
      obtain ⟨kept, planned⟩ := applyExclusions_planned settled requested planned excluded
      rw [unique] at planned
      split at done
      · rename_i present
        obtain ⟨roots, table⟩ := succeed_ok done
        have taken := (any_sameRoot_iff set.held _).mp present
        have installed : t.roots = insertBy (comparablePathKey platform)
            (resolveRootRequest platform root).path s.roots := by
          rw [roots, kept, same, insertBy_of_mem _ taken]
        exact ⟨installed ▸ whole, planned t installed table⟩
      · rename_i absent
        obtain ⟨_, w, added, done⟩ := Service.andThen_eq_ok done
        obtain ⟨grown, table⟩ := attempt_ok added
        obtain ⟨roots, table'⟩ := succeed_ok done
        have fresh := fun taken => absent ((any_sameRoot_iff set.held _).mpr taken)
        have installed : t.roots = insertBy (comparablePathKey platform)
            (resolveRootRequest platform root).path s.roots := by
          rw [roots, grown, insertBy_of_notMem _ fresh]
          exact congrArg₂ (· ++ [·]) (kept.trans same) (cstr_of_notMem requestable.1.1)
        exact ⟨installed ▸ whole, planned t installed (table'.trans table)⟩

theorem replaceRoots_exact (settled : AppDataSettled platform) {roots : List Bytes}
    (requestable : ∀ root ∈ roots, Requestable platform root)
    (done : (Operation.replaceRoots roots).run platform fault s planner = (.ok (), t)) :
    RootSet platform t.roots ∧ Exact platform planner t := by
  change s.replaceRoots platform (Abi.library platform fault) roots planner = (.ok (), t) at done
  simp only [Service.replaceRoots] at done
  split at done
  · cases congrArg Prod.fst done
  · rename_i prepared planned
    obtain ⟨values, u, listed, done⟩ := Service.andThen_eq_ok done
    have asked : roots.map (resolveRootRequest platform) =
        (roots.map fun root => (resolveRootRequest platform root).path).map
          (resolvePersistedRoot platform) := by
      rw [List.map_map]
      exact List.map_congr_left fun root member => (requestable root member).2
    rw [asked] at planned
    refine reseed_rootSet settled ?_ planned done
    intro listed member
    obtain ⟨root, origin, rfl⟩ := List.mem_map.mp member
    exact (requestable root origin).requested

theorem removeRoot_planned (settled : AppDataSettled platform) {root : Bytes}
    (set : RootSet platform s.roots) (whole : 0 ∉ (resolveRootRequest platform root).path)
    (done : (Operation.removeRoot root).run platform fault s planner = (.ok (), t)) :
    RootSet platform t.roots ∧ Planned platform planner t := by
  obtain ⟨values, u, listed, done⟩ := Service.andThen_eq_ok done
  obtain ⟨rfl, same, _⟩ := roots_ok set.held listed
  dsimp only at done
  let left := s.roots.filter fun other => !(comparablePathKey platform other ==
    comparablePathKey platform (resolveRootRequest platform root).path)
  have asked : ((resolvePersistedRoots platform s.roots).filter fun value =>
      !Service.sameRoot platform value (resolveRootRequest platform root)) =
        left.map (resolvePersistedRoot platform) := by
    rw [resolvePersistedRoots_held set.held, List.filter_map]
    congr 2
    funext other
    simp only [Function.comp_apply, Service.sameRoot, resolvePersistedRoot_path]
  have requested : ∀ other ∈ left, Requested platform other := by
    intro other member
    exact set.requested other (List.mem_of_mem_filter member)
  have distinct : (left.map (comparablePathKey platform)).Nodup :=
    set.distinct.sublist (List.filter_sublist.map _)
  have unique := uniqueBy_of_nodup _ distinct
  rw [asked] at done
  split at done
  · cases congrArg Prod.fst done
  · rename_i prepared planned
    split at done
    · obtain ⟨set', exact⟩ := reseed_rootSet settled requested planned done
      exact ⟨set', exact.planned⟩
    · obtain ⟨_, v, removed, done⟩ := Service.andThen_eq_ok done
      obtain ⟨_, w, excluded, done⟩ := Service.andThen_eq_ok done
      obtain ⟨shrunk, _⟩ := attempt_ok removed
      obtain ⟨kept, planned⟩ := applyExclusions_planned settled requested planned excluded
      obtain ⟨roots, table⟩ := succeed_ok done
      have installed : t.roots = left := by
        rw [roots, kept, shrunk]
        change withoutRoot platform (cstr (resolveRootRequest platform root).path) u.roots = left
        rw [cstr_of_notMem whole, same]
        exact eraseP_key _ _ set.distinct
      exact ⟨installed ▸ ⟨requested, distinct⟩, planned t (installed.trans unique.symm) table⟩

theorem reindexAsync_exact (settled : AppDataSettled platform) (set : RootSet platform s.roots)
    (done : Operation.reindexAsync.run platform fault s planner = (.ok (), t)) :
    t.roots = s.roots ∧ if s.roots = [] then t.table = s.table else Exact platform planner t := by
  obtain ⟨values, u, listed, done⟩ := Service.andThen_eq_ok done
  obtain ⟨rfl, same, table⟩ := roots_ok set.held listed
  split at done
  · rename_i blank
    obtain ⟨roots, kept⟩ := succeed_ok done
    rw [if_pos (List.isEmpty_iff.mp blank)]
    exact ⟨roots.trans same, kept.trans table⟩
  · rename_i listed
    rw [resolvePersistedRoots_held set.held] at done
    split at done
    · cases congrArg Prod.fst done
    · rename_i prepared planned
      obtain ⟨installed, exact⟩ := seedRootSet_exact settled set.requested planned done
      rw [if_neg fun blank => listed (List.isEmpty_iff.mpr blank)]
      exact ⟨installed.trans (uniqueBy_of_nodup _ set.distinct), exact⟩

/-- Reindexing an empty runtime plans for nothing, so a run may not have asked the planner. -/
theorem Attained.kept (settled : AppDataSettled platform) {ops : List Operation}
    (run : Attained platform planner ops s) :
    RootSet platform s.roots ∧ (Planned platform planner s ∨
      (∀ op ∈ ops, op = .reindexAsync) ∧ s.roots = [] ∧ s.table = []) := by
  induction run with
  | empty roots table =>
    rw [roots, table]
    exact ⟨⟨List.forall_mem_nil _, List.nodup_nil⟩, .inr ⟨List.forall_mem_nil _, rfl, rfl⟩⟩
  | addRoot fault _ requestable done ih =>
    obtain ⟨set, planned⟩ := addRoot_planned settled ih.1 requestable done
    exact ⟨set, .inl planned⟩
  | replaceRoots fault _ requestable done ih =>
    obtain ⟨set, exact⟩ := replaceRoots_exact settled requestable done
    exact ⟨set, .inl exact.planned⟩
  | removeRoot fault _ whole done ih =>
    obtain ⟨set, planned⟩ := removeRoot_planned settled ih.1 whole done
    exact ⟨set, .inl planned⟩
  | @reindexAsync fault ops s t _ done ih =>
    obtain ⟨set, before⟩ := ih
    obtain ⟨same, renewed⟩ := reindexAsync_exact settled set done
    refine ⟨same ▸ set, ?_⟩
    split at renewed
    · rename_i blank
      rcases before with planned | ⟨idle, _, table⟩
      · exact .inl ⟨same ▸ planned.accepted, by rw [same, renewed]; exact planned.excluded⟩
      · exact .inr ⟨List.forall_mem_cons.mpr ⟨rfl, idle⟩, same.trans blank, renewed.trans table⟩
    · exact .inl renewed.planned

/-- The run ends in an operation that fills the exclusion table anew. -/
def Refilled (s : Service Abi) : List Operation → Prop
  | .replaceRoots _ :: _ => True
  | .reindexAsync :: _ => s.roots ≠ []
  | _ => False

theorem Attained.exact (settled : AppDataSettled platform) {ops : List Operation}
    (run : Attained platform planner ops s) (refilled : Refilled s ops) :
    Exact platform planner s := by
  cases run with
  | empty | addRoot | removeRoot => cases refilled
  | replaceRoots fault run requestable done =>
    exact (replaceRoots_exact settled requestable done).2
  | reindexAsync fault run done =>
    obtain ⟨same, renewed⟩ := reindexAsync_exact settled (run.kept settled).1 done
    rwa [if_neg fun blank => refilled (same.trans blank)] at renewed

/-- After every run the keys are distinct. Once the planner was asked, or if it has nothing
against an empty root set, it accepts the roots and its exclusions are in the table, and
the table is exactly these where it was filled anew. -/
theorem root_set_invariant (platform : Platform) (planner : Planner)
    (settled : AppDataSettled platform) (ops : List Operation) (s : Service Abi)
    (run : Attained platform planner ops s) :
    (s.roots.map (comparablePathKey platform)).Nodup ∧
      ((∃ op ∈ ops, op ≠ .reindexAsync) ∨
          (planner []).rootAllowed = true ∧ (planner []).exclusions = [] →
        Planned platform planner s) ∧
      (Refilled s ops → Exact platform planner s) := by
  obtain ⟨set, planned | ⟨idle, roots, table⟩⟩ := run.kept settled
  · exact ⟨set.distinct, fun _ => planned, run.exact settled⟩
  · refine ⟨set.distinct, ?_, run.exact settled⟩
    rintro (⟨op, member, other⟩ | ⟨accepted, nothing⟩)
    · exact absurd (idle op member) other
    · constructor
      · rw [roots]
        exact accepted
      · intro excluded member
        rw [roots] at member
        exact absurd (nothing ▸ member) List.not_mem_nil

end Runs

/-- Only the AppData folders are looked up, by key. -/
def settledAbsolute (path : Bytes) : Bytes :=
  let spells folder :=
    pathKey (.windows sharedHost) path = pathKey (.windows sharedHost) (sharedHost.knownFolder folder)
  if spells .roamingAppData then sharedHost.knownFolder .roamingAppData
  else if spells .localAppData then sharedHost.knownFolder .localAppData
  else path

def settledHost : WindowsHost := { sharedHost with absolute := fun path => some (settledAbsolute path) }

theorem settledHost_settled : AppDataSettled (.windows settledHost) := by
  intro folder known path key
  have found : settledAbsolute path = settledHost.knownFolder folder := by
    rcases List.mem_pair.mp known with rfl | rfl
    · have plain : normalizedAbsolute (.windows settledHost) (settledHost.knownFolder .roamingAppData) =
          sharedHost.knownFolder .roamingAppData := by decide +kernel
      rw [plain] at key
      exact if_pos key
    · have plain : normalizedAbsolute (.windows settledHost) (settledHost.knownFolder .localAppData) =
          sharedHost.knownFolder .localAppData := by decide +kernel
      rw [plain] at key
      have apart : pathKey (.windows sharedHost) (sharedHost.knownFolder .localAppData) ≠
          pathKey (.windows sharedHost) (sharedHost.knownFolder .roamingAppData) := by decide +kernel
      have other : pathKey (.windows sharedHost) path ≠
          pathKey (.windows sharedHost) (sharedHost.knownFolder .roamingAppData) :=
        fun same => apart (key.symm.trans same)
      exact (if_neg other).trans (if_pos key)
  have own : settledAbsolute (settledHost.knownFolder folder) = settledHost.knownFolder folder := by
    rcases List.mem_pair.mp known with rfl | rfl <;> decide +kernel
  exact congrArg (fun absolute => pathKey (.windows settledHost) (lexicallyNormal .windows absolute))
    (found.trans own.symm)

def freshService : Service Abi where
  runtime := { runtime := {} }
  dialect := .windows

def driveListed : Service Abi :=
  ((Operation.addRoot (lit "C:\\")).run (.windows settledHost) none freshService).2

def adopted : Service Abi :=
  ((Operation.addRoot (lit "%APPDATA%")).run (.windows settledHost) none driveListed).2

theorem run_of_ok {s : Service Abi} (op : Operation)
    (done : (op.run (.windows settledHost) none s).1 = .ok ()) :
    op.run (.windows settledHost) none s = (.ok (), (op.run (.windows settledHost) none s).2) :=
  Prod.ext done rfl

/-- A drive is listed, then an AppData folder below it by request. -/
theorem adopted_attained :
    Attained (.windows settledHost) (planDefaultIndexPolicySet (.windows settledHost))
      [.addRoot (lit "%APPDATA%"), .addRoot (lit "C:\\")] adopted := by
  have drive : Requestable (.windows settledHost) (lit "C:\\") := by
    simp only [Requestable]
    decide +kernel
  have folder : Requestable (.windows settledHost) (lit "%APPDATA%") := by
    simp only [Requestable]
    decide +kernel
  have listed := run_of_ok (s := freshService) (.addRoot (lit "C:\\")) (by decide +kernel)
  have joined := run_of_ok (s := driveListed) (.addRoot (lit "%APPDATA%")) (by decide +kernel)
  exact .addRoot none (.addRoot none (.empty rfl rfl) drive listed) folder joined

/-- The adopted folder keeps the planner's exclusions for the drive off itself. -/
theorem adopted_root_set :
    (adopted.roots.map (comparablePathKey (.windows settledHost))).Nodup ∧
      Planned (.windows settledHost) (planDefaultIndexPolicySet (.windows settledHost)) adopted := by
  obtain ⟨distinct, planned, _⟩ := root_set_invariant (.windows settledHost)
    (planDefaultIndexPolicySet (.windows settledHost)) settledHost_settled _ adopted
    adopted_attained
  exact ⟨distinct, planned (.inl ⟨.addRoot (lit "C:\\"), by decide, by decide⟩)⟩

/-- A planner with something against having no roots. -/
def refusesNone : Planner := fun requests => if requests.isEmpty then rejected (lit "no roots") else {}

def reindexed : Service Abi := (Operation.reindexAsync.run (.posix some) none freshService refusesNone).2

/-- A reindex of the empty runtime succeeds without a plan; and a root that is cut at a NUL
byte on its way to the runtime can be one that is listed. -/
theorem unplanned_reindex_and_cut_root :
    (Attained (.posix some) refusesNone [.reindexAsync] reindexed ∧
        ¬ Planned (.posix some) refusesNone reindexed) ∧
      let first := (Operation.addRoot (lit "/a")).run (.posix some) none freshService
      let second := (Operation.addRoot (lit "/a" ++ 0 :: lit "b")).run (.posix some) none first.2
      first.1 = .ok () ∧ second.1 = .ok () ∧
        ¬ (second.2.roots.map (comparablePathKey (.posix some))).Nodup := by
  refine ⟨⟨.reindexAsync none (.empty (rfl : freshService.roots = []) rfl) rfl, ?_⟩, by decide +kernel⟩
  intro planned
  exact absurd planned.accepted (by decide)

end Such.IndexRootService
