import Such.Base.KeyedList
import Such.Runtime.IndexRootService

/-! Root operations under a runtime of which one call fails: what is left of the root
list when an operation reports failure. -/
namespace Such.IndexRootService
open ByteText LexicalPath IndexPathPolicy RuntimeClient KeyedList

/-- The roots without the first one under the key. -/
def withoutRoot (platform : Platform) (root : Bytes) (roots : List Bytes) : List Bytes :=
  roots.eraseP fun r => comparablePathKey platform r == comparablePathKey platform root

/-- `calls` counts the calls that can fail. -/
structure Abi where
  roots : List Bytes := []
  excluded : List Bytes := []
  calls : Nat := 0
deriving DecidableEq, Repr

/-- The number of the one call that fails, and the error text it leaves. -/
abbrev Fault := Option (Nat × Bytes)

namespace Abi

def fails (fault : Fault) (s : Abi) : Bool := fault.any (·.1 == s.calls)

def attempt (fault : Fault) (effect : Abi → Abi) (s : Abi) : Bool × Abi :=
  if s.fails fault then (false, { s with calls := s.calls + 1 })
  else (true, { effect s with calls := s.calls + 1 })

def appendRoot (root : Bytes) (s : Abi) : Abi := { s with roots := s.roots ++ [root] }

/-- One root under the key goes. -/
def dropRoot (platform : Platform) (root : Bytes) (s : Abi) : Abi :=
  { s with roots := withoutRoot platform root s.roots }

def installRoots (roots : List Bytes) (_ : Abi) : Abi := { roots := roots }

def markIndexed (path : Bytes) (indexed : Bool) (s : Abi) : Abi :=
  { s with excluded := if indexed then s.excluded.filter (· ≠ path) else s.excluded ++ [path] }

def library (platform : Platform) (fault : Fault) : Library Abi where
  view s := {
    lastError := ((fault.filter (·.1 + 1 == s.calls)).map (·.2)).getD []
    listExtensions := []
    search := fun _ _ _ => .ok []
    searchContent := none }
  addRoot root := attempt fault (appendRoot root)
  removeRoot root := attempt fault (dropRoot platform root)
  replaceRoots roots := attempt fault (installRoots roots)
  listRoots s := (if s.fails fault then none else some s.roots, { s with calls := s.calls + 1 })
  setIndexed path indexed := attempt fault (markIndexed path indexed)
  setPinned _ _ := attempt fault id
  reindexAsync s := s
  status s := (some {}, s)
  generation _ := 0

end Abi

/-- Texts that are some path's UTF-8 text. -/
def isPath : Platform → Bytes → Bool
  | .posix _, _ => true
  | .windows host, text => text.isEmpty || host.decodes text

/-- The states a runtime gets into through the client's calls, failed ones among them. -/
inductive Reachable (platform : Platform) : Abi → Prop
  | fresh : Reachable platform {}
  | addRoot (fault : Fault) {root : Bytes} {s : Abi} : isPath platform root = true →
      Reachable platform s → Reachable platform ((Abi.library platform fault).addRoot (cstr root) s).2
  | removeRoot (fault : Fault) (root : Bytes) {s : Abi} : Reachable platform s →
      Reachable platform ((Abi.library platform fault).removeRoot (cstr root) s).2
  | replaceRoots (fault : Fault) {roots : List Bytes} {s : Abi} :
      (∀ root ∈ roots, isPath platform root = true) → Reachable platform s →
      Reachable platform ((Abi.library platform fault).replaceRoots (roots.map cstr) s).2
  | listRoots (fault : Fault) {s : Abi} : Reachable platform s →
      Reachable platform ((Abi.library platform fault).listRoots s).2
  | setIndexed (fault : Fault) (path : Bytes) (indexed : Bool) {s : Abi} : Reachable platform s →
      Reachable platform ((Abi.library platform fault).setIndexed (cstr path) indexed s).2

/-- A root text the service reads back as the path that was listed. -/
def Held (platform : Platform) (roots : List Bytes) : Prop :=
  ∀ root ∈ roots, 0 ∉ root ∧ pathFromUtf8 platform root = root

theorem held_cstr {platform : Platform} {root : Bytes} (path : isPath platform root = true) :
    0 ∉ cstr root ∧ pathFromUtf8 platform (cstr root) = cstr root := by
  refine ⟨notMem_cstr root, ?_⟩
  cases platform with
  | posix absolute => rfl
  | windows host =>
    by_cases empty : (cstr root).isEmpty
    · rw [List.isEmpty_iff.mp empty]
      rfl
    · have decoded : host.decodes (cstr root) = true := by
        apply host.decodes_cstr
        rcases Bool.or_eq_true _ _ ▸ path with blank | decoded
        · rw [List.isEmpty_iff.mp blank] at empty
          exact absurd rfl empty
        · exact decoded
      simp only [pathFromUtf8, empty, decoded, Bool.false_eq_true, ite_true, ite_false]

theorem attempt_roots (fault : Fault) (effect : Abi → Abi) (s : Abi) :
    (Abi.attempt fault effect s).2.roots = s.roots ∨
      (Abi.attempt fault effect s).2.roots = (effect s).roots := by
  simp only [Abi.attempt]
  split
  · exact .inl rfl
  · exact .inr rfl

theorem Reachable.held {platform : Platform} {s : Abi} (reachable : Reachable platform s) :
    Held platform s.roots := by
  induction reachable with
  | fresh =>
    intro root member
    cases member
  | @addRoot fault root s path _ ih =>
    rcases attempt_roots fault (Abi.appendRoot (cstr root)) s with same | grown
    · exact same ▸ ih
    · intro listed member
      have member : listed ∈ (Abi.appendRoot (cstr root) s).roots := grown ▸ member
      rcases List.mem_append.mp member with old | new
      · exact ih listed old
      · rw [List.mem_singleton.mp new]
        exact held_cstr path
  | @removeRoot fault root s _ ih =>
    rcases attempt_roots fault (Abi.dropRoot platform (cstr root)) s with same | shrunk
    · exact same ▸ ih
    · intro listed member
      have member : listed ∈ (Abi.dropRoot platform (cstr root) s).roots := shrunk ▸ member
      exact ih listed (List.mem_of_mem_eraseP member)
  | @replaceRoots fault roots s paths _ ih =>
    rcases attempt_roots fault (Abi.installRoots (roots.map cstr)) s with same | replaced
    · exact same ▸ ih
    · intro listed member
      have member : listed ∈ (Abi.installRoots (roots.map cstr) s).roots := replaced ▸ member
      obtain ⟨root, origin, rfl⟩ := List.mem_map.mp member
      exact held_cstr (paths root origin)
  | @listRoots fault s _ ih => exact ih
  | @setIndexed fault path indexed s _ ih =>
    exact (attempt_roots fault (Abi.markIndexed (cstr path) indexed) s).elim (· ▸ ih) (· ▸ ih)

namespace Service

def roots (s : Service Abi) : List Bytes := s.runtime.runtime.roots

def calls (s : Service Abi) : Nat := s.runtime.runtime.calls

@[simp] theorem roots_requestMaintenance (s : Service Abi) : s.requestMaintenance.roots = s.roots := by
  simp only [requestMaintenance]
  split <;> rfl

end Service

/-- The failing call is one of the next `count`. -/
def Strikes (fault : Fault) (first count : Nat) : Prop :=
  ∃ f ∈ fault, first ≤ f.1 ∧ f.1 < first + count

/-- No call fails any more. -/
def Quiet (fault : Fault) (s : Service Abi) : Prop := ∀ f ∈ fault, f.1 < s.calls

theorem not_strikes_zero (fault : Fault) (first : Nat) : ¬ Strikes fault first 0 := by
  rintro ⟨f, _, low, high⟩
  omega

theorem Quiet.not_strikes {fault : Fault} {s : Service Abi} (quiet : Quiet fault s) (count : Nat) :
    ¬ Strikes fault s.calls count := by
  rintro ⟨f, member, low, _⟩
  have passed := quiet f member
  omega

theorem Strikes.later {fault : Fault} {first count : Nat} (more : Nat)
    (strikes : Strikes fault first count) : Strikes fault first (count + more) := by
  obtain ⟨f, member, low, high⟩ := strikes
  exact ⟨f, member, low, by omega⟩

theorem Strikes.after {fault : Fault} {first count earlier gap : Nat}
    (strikes : Strikes fault first count) (before : earlier + gap ≤ first) :
    ¬ Strikes fault earlier gap := by
  obtain ⟨f, member, low, _⟩ := strikes
  rintro ⟨g, other, _, high⟩
  cases Option.mem_unique member other
  omega

theorem strikes_add {fault : Fault} {first count more : Nat} (missed : ¬ Strikes fault first count) :
    Strikes fault first (count + more) ↔ Strikes fault (first + count) more := by
  constructor
  · rintro ⟨f, member, low, high⟩
    refine ⟨f, member, ?_, by omega⟩
    by_contra before
    exact missed ⟨f, member, low, by omega⟩
  · rintro ⟨f, member, low, high⟩
    exact ⟨f, member, by omega, by omega⟩

/-- What a run of `count` calls from `s` can come to. A refused run has met the fault; it
leaves roots that `failed` admits. A completed one leaves `roots`. -/
inductive Ran (fault : Fault) (s : Service Abi) (count : Nat) (failed : List Bytes → Prop)
    (roots : List Bytes) : Except Bytes Unit × Service Abi → Prop
  | refused (e : Bytes) (t : Service Abi) : Strikes fault s.calls count → Quiet fault t →
      failed t.roots → Ran fault s count failed roots (.error e, t)
  | done (t : Service Abi) : ¬ Strikes fault s.calls count → t.calls = s.calls + count →
      t.roots = roots → Ran fault s count failed roots (.ok (), t)

section Calls
variable {platform : Platform} {fault : Fault}

theorem Ran.of_not_strikes {s : Service Abi} {count : Nat} {failed : List Bytes → Prop}
    {roots : List Bytes} {result : Except Bytes Unit × Service Abi}
    (ran : Ran fault s count failed roots result) (missed : ¬ Strikes fault s.calls count) :
    ∃ t, result = (.ok (), t) ∧ t.calls = s.calls + count ∧ t.roots = roots := by
  cases ran with
  | refused e t strikes _ _ => exact absurd strikes missed
  | done t _ counted same => exact ⟨t, rfl, counted, same⟩

theorem Ran.of_strikes {s : Service Abi} {count : Nat} {failed : List Bytes → Prop}
    {roots : List Bytes} {result : Except Bytes Unit × Service Abi}
    (ran : Ran fault s count failed roots result) (strikes : Strikes fault s.calls count) :
    ∃ e t, result = (.error e, t) ∧ failed t.roots := by
  cases ran with
  | refused e t _ _ kept => exact ⟨e, t, rfl, kept⟩
  | done t missed _ _ => exact absurd strikes missed

theorem Ran.of_error {s t : Service Abi} {count : Nat} {failed : List Bytes → Prop}
    {roots : List Bytes} {e : Bytes} (ran : Ran fault s count failed roots (.error e, t)) :
    Strikes fault s.calls count ∧ Quiet fault t ∧ failed t.roots := by
  cases ran with
  | refused e t strikes quiet kept => exact ⟨strikes, quiet, kept⟩

theorem Ran.of_ok {s t : Service Abi} {count : Nat} {failed : List Bytes → Prop}
    {roots : List Bytes} {u : Unit} (ran : Ran fault s count failed roots (.ok u, t)) :
    ¬ Strikes fault s.calls count ∧ t.calls = s.calls + count ∧ t.roots = roots := by
  cases ran with
  | done t missed counted same => exact ⟨missed, counted, same⟩

theorem strikes_one_iff (s : Service Abi) :
    Strikes fault s.calls 1 ↔ s.runtime.runtime.fails fault = true := by
  simp only [Abi.fails]
  rw [Option.any_eq_true]
  constructor
  · rintro ⟨f, member, low, high⟩
    exact ⟨f, member, beq_iff_eq.mpr (Nat.le_antisymm (Nat.lt_succ_iff.mp high) low)⟩
  · rintro ⟨f, member, now⟩
    exact ⟨f, member, (eq_of_beq now).ge, Nat.lt_succ_of_le (eq_of_beq now).le⟩

theorem attempt_ran (effect : Abi → Abi) (s : Service Abi) :
    Ran fault s 1 (· = s.roots) (effect s.runtime.runtime).roots
      (s.call (Loaded.mutate (Abi.library platform fault) (Abi.attempt fault effect))) := by
  simp only [Service.call, Loaded.mutate, Abi.attempt]
  cases struck : s.runtime.runtime.fails fault with
  | true =>
    have strikes := (strikes_one_iff s).mpr struck
    refine .refused _ _ strikes ?_ rfl
    obtain ⟨f, member, low, high⟩ := strikes
    intro g other
    cases Option.mem_unique member other
    exact high
  | false =>
    refine .done _ ?_ rfl rfl
    rw [strikes_one_iff, struck]
    exact Bool.false_ne_true

theorem addRoot_ran (root : Bytes) (s : Service Abi) :
    Ran fault s 1 (· = s.roots) (s.roots ++ [cstr root])
      (s.call (Loaded.addRoot (Abi.library platform fault) root)) :=
  attempt_ran (Abi.appendRoot (cstr root)) s

theorem removeRoot_ran (root : Bytes) (s : Service Abi) :
    Ran fault s 1 (· = s.roots) (withoutRoot platform (cstr root) s.roots)
      (s.call (Loaded.removeRoot (Abi.library platform fault) root)) :=
  attempt_ran (Abi.dropRoot platform (cstr root)) s

theorem replaceRoots_ran (roots : List Bytes) (s : Service Abi) :
    Ran fault s 1 (· = s.roots) (roots.map cstr)
      (s.call (Loaded.replaceRoots (Abi.library platform fault) roots)) :=
  attempt_ran (Abi.installRoots (roots.map cstr)) s

theorem setIndexed_ran (path : Bytes) (indexed : Bool) (s : Service Abi) :
    Ran fault s 1 (· = s.roots) s.roots
      (s.call (Loaded.setIndexed (Abi.library platform fault) path indexed)) :=
  attempt_ran (Abi.markIndexed (cstr path) indexed) s

/-- Calls that follow on the success of others. -/
theorem Ran.andThen {s : Service Abi} {count more : Nat} {failed failed' : List Bytes → Prop}
    {middle roots : List Bytes} {first : Except Bytes Unit × Service Abi}
    {next : Unit → Service Abi → Except Bytes Unit × Service Abi}
    (ran : Ran fault s count failed middle first) (weaken : ∀ l, failed l → failed' l)
    (rest : ∀ t, t.roots = middle → Ran fault t more failed' roots (next () t)) :
    Ran fault s (count + more) failed' roots (Service.andThen first next) := by
  cases ran with
  | refused e t strikes quiet kept => exact .refused e t (strikes.later more) quiet (weaken _ kept)
  | done t missed counted same =>
    have rest := rest t same
    rw [Service.andThen_ok]
    revert rest
    generalize next () t = result
    intro rest
    cases rest with
    | refused e u strikes quiet kept =>
      exact .refused e u ((strikes_add missed).mpr (counted ▸ strikes)) quiet kept
    | done u missed' counted' same' =>
      refine .done u ?_ (by omega) same'
      rw [strikes_add missed, ← counted]
      exact missed'

theorem applyExclusion_ran (excluded : Bytes) (s : Service Abi) :
    Ran fault s 1 (· = s.roots) s.roots (s.applyExclusion (Abi.library platform fault) excluded) := by
  have call := @setIndexed_ran platform fault excluded false s
  simp only [Service.applyExclusion]
  revert call
  generalize s.call (Loaded.setIndexed (Abi.library platform fault) excluded false) = result
  intro call
  cases call with
  | refused e t strikes quiet kept => exact .refused _ t strikes quiet kept
  | done t missed counted same => exact .done t missed counted same

/-- The exclusions alone never touch the root list. -/
theorem applyExclusions_ran (exclusions : List Bytes) (s : Service Abi) :
    Ran fault s exclusions.length (· = s.roots) s.roots
      (s.applyExclusions (Abi.library platform fault) exclusions) := by
  induction exclusions generalizing s with
  | nil => exact .done s (not_strikes_zero fault _) rfl rfl
  | cons excluded rest ih =>
    rw [List.length_cons, Nat.add_comm]
    apply (applyExclusion_ran excluded s).andThen (fun _ kept => kept)
    intro t same
    exact same ▸ ih t

theorem addRoots_ran (added : List ResolvedRoot) (s : Service Abi) :
    Ran fault s added.length (fun _ => True) (s.roots ++ added.map (cstr ·.path))
      (s.addRoots (Abi.library platform fault) added) := by
  induction added generalizing s with
  | nil => exact .done s (not_strikes_zero fault _) rfl (List.append_nil _).symm
  | cons root rest ih =>
    rw [List.length_cons, Nat.add_comm]
    apply (addRoot_ran root.path s).andThen (fun _ _ => trivial)
    intro t same
    have grown : t.roots ++ rest.map (cstr ·.path) = s.roots ++ (root :: rest).map (cstr ·.path) := by
      rw [same, List.append_assoc]
      rfl
    exact grown ▸ ih t

/-- A full replacement installs exactly the prepared roots. -/
theorem applyPreparedRootSet_ran (prepared : PreparedRootSet) (s : Service Abi) :
    Ran fault s (1 + (prepared.exclusions.length + prepared.roots.length)) (fun _ => True)
      (prepared.roots.map (cstr ·.path))
      (s.applyPreparedRootSet (Abi.library platform fault) prepared) := by
  apply (replaceRoots_ran [] s).andThen (fun _ _ => trivial)
  intro t cleared
  apply (applyExclusions_ran prepared.exclusions t).andThen (fun _ _ => trivial)
  intro u same
  have empty : u.roots = [] := same.trans cleared
  have added := @addRoots_ran platform fault prepared.roots u
  rw [empty] at added
  exact added

theorem roots_call {s : Service Abi} (held : Held platform s.roots) :
    (∃ e t, s.call (Loaded.roots (Abi.library platform fault)) = (.error e, t) ∧
        t.roots = s.roots ∧ Strikes fault s.calls 1) ∨
      ∃ t, s.call (Loaded.roots (Abi.library platform fault)) = (.ok s.roots, t) ∧
        t.roots = s.roots ∧ t.calls = s.calls + 1 ∧ ¬ Strikes fault s.calls 1 := by
  have texts : s.roots.map cstr = s.roots := by
    apply (List.map_congr_left ?_).trans (List.map_id _)
    intro root member
    exact cstr_of_notMem (held root member).1
  simp only [Service.call, Loaded.roots]
  rw [strikes_one_iff]
  cases struck : s.runtime.runtime.fails fault with
  | true =>
    have listed : (Abi.library platform fault).listRoots s.runtime.runtime =
        (none, { s.runtime.runtime with calls := s.calls + 1 }) := congrArg (·, _) (if_pos struck)
    rw [listed]
    exact .inl ⟨_, _, rfl, rfl, rfl⟩
  | false =>
    have listed : (Abi.library platform fault).listRoots s.runtime.runtime =
        (some s.roots, { s.runtime.runtime with calls := s.calls + 1 }) :=
      congrArg (·, _) (if_neg (struck ▸ Bool.false_ne_true))
    rw [listed]
    refine .inr ⟨_, Prod.ext (congrArg Except.ok texts) rfl, rfl, rfl, Bool.false_ne_true⟩

end Calls

section Prepared
variable (platform : Platform)

theorem mergeRoot_paths (root : ResolvedRoot) (unique : List ResolvedRoot) :
    (mergeRoot platform root unique).map (·.path) =
      insertBy (comparablePathKey platform) root.path (unique.map (·.path)) := by
  induction unique with
  | nil => rfl
  | cons existing rest ih =>
    by_cases same : comparablePathKey platform existing.path = comparablePathKey platform root.path
    · have taken : comparablePathKey platform root.path ∈
          ((existing :: rest).map (·.path)).map (comparablePathKey platform) := by
        rw [← same]
        exact List.mem_cons_self
      rw [insertBy_of_mem _ taken, mergeRoot, if_pos same]
      split <;> rfl
    · rw [mergeRoot, if_neg same, List.map_cons, List.map_cons, ih]
      exact (insertBy_cons_of_ne _ (fun equal => same equal.symm) _).symm

theorem uniqueRoots_paths (resolved : List ResolvedRoot) :
    (uniqueRoots platform resolved).map (·.path) =
      uniqueBy (comparablePathKey platform) (resolved.map (·.path)) := by
  have fold : ∀ unique : List ResolvedRoot,
      (resolved.foldl (fun unique root => mergeRoot platform root unique) unique).map (·.path) =
        (resolved.map (·.path)).foldl
          (fun unique a => insertBy (comparablePathKey platform) a unique) (unique.map (·.path)) := by
    induction resolved with
    | nil => intro unique; rfl
    | cons root rest ih =>
      intro unique
      rw [List.foldl_cons, List.map_cons, List.foldl_cons, ih, mergeRoot_paths]
  exact fold []

variable {platform}

theorem prepareRootSet_paths {resolved : List ResolvedRoot} {prepared : PreparedRootSet}
    (h : prepareRootSet platform resolved = .ok prepared) :
    prepared.roots.map (·.path) = uniqueBy (comparablePathKey platform) (resolved.map (·.path)) := by
  unfold prepareRootSet at h
  dsimp only at h
  split at h
  · contradiction
  · cases h
    exact uniqueRoots_paths platform resolved

theorem resolvePersistedRoot_path (persisted : Bytes) :
    (resolvePersistedRoot platform persisted).path = persisted := by
  simp only [resolvePersistedRoot]
  split <;> rfl

theorem map_resolvePersistedRoot_path (values : List Bytes) :
    (values.map (resolvePersistedRoot platform)).map (·.path) = values := by
  rw [List.map_map]
  exact (List.map_congr_left fun value _ => resolvePersistedRoot_path value).trans (List.map_id _)

theorem pathFromUtf8_held {values : List Bytes} (held : Held platform values) :
    values.map (pathFromUtf8 platform) = values :=
  (List.map_congr_left fun value member => (held value member).2).trans (List.map_id _)

theorem resolvePersistedRoots_held {values : List Bytes} (held : Held platform values) :
    resolvePersistedRoots platform values = values.map (resolvePersistedRoot platform) := by
  have every : values.filter (fun value => value.isEmpty || !(pathFromUtf8 platform value).isEmpty) =
      values := by
    apply List.filter_eq_self.mpr
    intro value member
    rw [(held value member).2, Bool.or_not_self]
  simp only [resolvePersistedRoots]
  rw [every]
  apply List.map_congr_left
  intro value member
  rw [(held value member).2]

end Prepared

/-- The same root list up to repeated keys. -/
def SameRoots (platform : Platform) (before after : List Bytes) : Prop :=
  uniqueBy (comparablePathKey platform) after = uniqueBy (comparablePathKey platform) before

/-- The policy plans for the listed roots instead of rejecting them. -/
def PolicyAllows (platform : Platform) (roots : List Bytes) : Prop :=
  ∃ prepared, prepareRootSet platform (resolvePersistedRoots platform roots) = .ok prepared

inductive Operation where
  | addRoot (root : Bytes)
  | replaceRoots (roots : List Bytes)
  | removeRoot (root : Bytes)
  | reindexAsync
deriving DecidableEq, Repr

def Operation.run (platform : Platform) (fault : Fault) (s : Service Abi) (op : Operation)
    (planner : Planner := planDefaultIndexPolicySet platform) : Except Bytes Unit × Service Abi :=
  match op with
  | .addRoot root => s.addRoot platform (Abi.library platform fault) root planner
  | .replaceRoots roots => s.replaceRoots platform (Abi.library platform fault) roots planner
  | .removeRoot root => s.removeRoot platform (Abi.library platform fault) root planner
  | .reindexAsync => s.reindexAsync platform (Abi.library platform fault) planner

/-- Failure leaves the roots. -/
def AllOrNothing (platform : Platform) (fault : Fault) (s : Service Abi) (op : Operation) : Prop :=
  ∀ e t, op.run platform fault s = (.error e, t) → SameRoots platform s.roots t.roots

section Operations
variable {platform : Platform} {fault : Fault} {s : Service Abi}

theorem sameRoots_of_eq {before after : List Bytes} (same : after = before) :
    SameRoots platform before after := congrArg _ same

theorem restoreRoots_quiet {roots : List Bytes} {t : Service Abi} (held : Held platform roots)
    (allowed : PolicyAllows platform roots) (quiet : Quiet fault t) :
    ∃ u, t.restoreRoots platform (Abi.library platform fault) roots = (.ok (), u) ∧
      u.roots = uniqueBy (comparablePathKey platform) roots := by
  obtain ⟨prepared, planned⟩ := allowed
  rw [resolvePersistedRoots_held held] at planned
  obtain ⟨u, applied, _, installed⟩ :=
    (applyPreparedRootSet_ran prepared t).of_not_strikes (quiet.not_strikes _)
  have paths := prepareRootSet_paths planned
  rw [map_resolvePersistedRoot_path] at paths
  refine ⟨u, ?_, ?_⟩
  · simp only [Service.restoreRoots]
    rw [planned]
    exact applied
  · rw [installed, ← paths]
    apply List.map_congr_left
    intro root member
    have listed : root.path ∈ uniqueBy (comparablePathKey platform) roots :=
      paths ▸ List.mem_map_of_mem member
    exact cstr_of_notMem (held root.path (uniqueBy_subset _ _ listed)).1

/-- A full replacement that fails is rolled back. -/
theorem seedRootSet_sameRoots {prepared : PreparedRootSet} {roots : List Bytes} {e : Bytes}
    {t : Service Abi} (held : Held platform roots) (allowed : PolicyAllows platform roots)
    (failed : s.seedRootSet platform (Abi.library platform fault) prepared roots = (.error e, t)) :
    SameRoots platform roots t.roots := by
  have ran := @applyPreparedRootSet_ran platform fault prepared s
  simp only [Service.seedRootSet] at failed
  split at failed
  · rename_i primary u refused
    rw [refused] at ran
    obtain ⟨restored, applied, installed⟩ := restoreRoots_quiet held allowed ran.of_error.2.1
    simp only [Service.rollbackRoots] at failed
    simp only [applied, Prod.mk.injEq] at failed
    rw [← failed.2]
    simp only [SameRoots]
    rw [Service.roots_requestMaintenance, installed]
    exact uniqueBy_uniqueBy _ roots
  · cases failed

theorem succeed_ne_error {e : Bytes} {t u : Service Abi} : t.succeed ≠ (.error e, u) := by
  intro equal
  cases congrArg Prod.fst equal

theorem addRoot_sameRoots (root : Bytes) (held : Held platform s.roots)
    (allowed : PolicyAllows platform s.roots) : AllOrNothing platform fault s (.addRoot root) := by
  intro e t failed
  rcases @roots_call platform fault s held with ⟨_, u, refused, same, _⟩ | ⟨u, listed, same, _, _⟩
  · simp only [Operation.run, Service.addRoot, refused, Service.andThen_error] at failed
    cases failed
    exact sameRoots_of_eq same
  · simp only [Operation.run, Service.addRoot, listed, Service.andThen_ok] at failed
    split at failed
    · cases failed
      exact sameRoots_of_eq same
    · rename_i prepared planned
      split at failed
      · rw [resolvePersistedRoots_held held, map_resolvePersistedRoot_path] at failed
        exact seedRootSet_sameRoots held allowed failed
      · have excluded := @applyExclusions_ran platform fault prepared.exclusions u
        rcases Service.andThen_eq_error failed with refused | ⟨_, v, done, failed⟩
        · rw [refused] at excluded
          exact sameRoots_of_eq (excluded.of_error.2.2.trans same)
        · rw [done] at excluded
          have kept := excluded.of_ok.2.2.trans same
          split at failed
          · exact absurd failed succeed_ne_error
          · have added := @addRoot_ran platform fault (resolveRootRequest platform root).path v
            rcases Service.andThen_eq_error failed with refused | ⟨_, w, _, failed⟩
            · rw [refused] at added
              exact sameRoots_of_eq (added.of_error.2.2.trans kept)
            · exact absurd failed succeed_ne_error

theorem replaceRoots_sameRoots (roots : List Bytes) (held : Held platform s.roots)
    (allowed : PolicyAllows platform s.roots) :
    AllOrNothing platform fault s (.replaceRoots roots) := by
  intro e t failed
  change s.replaceRoots platform (Abi.library platform fault) roots = (.error e, t) at failed
  simp only [Service.replaceRoots] at failed
  split at failed
  · cases failed
    exact sameRoots_of_eq rfl
  · rcases @roots_call platform fault s held with ⟨_, u, refused, same, _⟩ | ⟨u, listed, same, _, _⟩
    · rw [refused] at failed
      cases failed
      exact sameRoots_of_eq same
    · rw [listed, Service.andThen_ok, pathFromUtf8_held held] at failed
      exact seedRootSet_sameRoots held allowed failed

theorem reindexAsync_sameRoots (held : Held platform s.roots)
    (allowed : PolicyAllows platform s.roots) : AllOrNothing platform fault s .reindexAsync := by
  intro e t failed
  rcases @roots_call platform fault s held with ⟨_, u, refused, same, _⟩ | ⟨u, listed, same, _, _⟩
  · simp only [Operation.run, Service.reindexAsync, refused, Service.andThen_error] at failed
    cases failed
    exact sameRoots_of_eq same
  · simp only [Operation.run, Service.reindexAsync, listed, Service.andThen_ok] at failed
    split at failed
    · exact absurd failed succeed_ne_error
    · split at failed
      · cases failed
        exact sameRoots_of_eq same
      · rw [pathFromUtf8_held held] at failed
        exact seedRootSet_sameRoots held allowed failed

/-- The roots the policy is planned for once the requested one is gone. -/
def remaining (platform : Platform) (roots : List Bytes) (requested : ResolvedRoot) :
    List ResolvedRoot :=
  (resolvePersistedRoots platform roots).filter fun value =>
    !Service.sameRoot platform value requested

/-- A removal that takes a root away without reseeding, and meets the fault at one of the
exclusions that follow on it. -/
def SpoiltRemoval (platform : Platform) (fault : Fault) (s : Service Abi) (root : Bytes) : Prop :=
  let requested := resolveRootRequest platform root
  (∀ value ∈ resolvePersistedRoots platform s.roots, Service.sameRoot platform value requested →
      value.overrideMode ≠ .explicitCurrentUserAppData) ∧
    (∃ prepared, prepareRootSet platform (remaining platform s.roots requested) = .ok prepared ∧
      Strikes fault (s.calls + 2) prepared.exclusions.length) ∧
    ¬ SameRoots platform s.roots (withoutRoot platform (cstr requested.path) s.roots)

/-- An exclusion that fails behind the removal is answered without putting the root back. -/
theorem removeRoot_spoilt (root : Bytes) (held : Held platform s.roots) :
    AllOrNothing platform fault s (.removeRoot root) → ¬ SpoiltRemoval platform fault s root := by
  rintro kept ⟨ordinary, ⟨prepared, planned, strikes⟩, lost⟩
  have listed := @roots_call platform fault s held
  rcases listed with ⟨_, _, _, _, early⟩ | ⟨u, listed, same, counted, _⟩
  · exact strikes.after (by omega) early
  · obtain ⟨v, removed, counted', gone⟩ :=
      (@removeRoot_ran platform fault (resolveRootRequest platform root).path u).of_not_strikes
        (strikes.after (by omega))
    have here : s.calls + 2 = v.calls := by omega
    rw [here] at strikes
    obtain ⟨e, t, refused, unchanged⟩ :=
      (@applyExclusions_ran platform fault prepared.exclusions v).of_strikes strikes
    apply lost
    have failed : (Operation.removeRoot root).run platform fault s = (.error e, t) := by
      have plain : ¬ ((resolvePersistedRoots platform s.roots).any fun value =>
          Service.sameRoot platform value (resolveRootRequest platform root) &&
            value.overrideMode == .explicitCurrentUserAppData) = true := by
        intro found
        obtain ⟨value, member, both⟩ := List.any_eq_true.mp found
        rw [Bool.and_eq_true, beq_iff_eq] at both
        exact ordinary value member both.1 both.2
      have planned : prepareRootSet platform
          ((resolvePersistedRoots platform s.roots).filter fun value =>
            !Service.sameRoot platform value (resolveRootRequest platform root)) = .ok prepared :=
        planned
      simp only [Operation.run, Service.removeRoot, listed, Service.andThen_ok, planned,
        if_neg plain, removed, refused, Service.andThen_error]
    have outcome := kept e t failed
    rwa [unchanged, gone, same] at outcome

theorem removeRoot_sameRoots (root : Bytes) (held : Held platform s.roots)
    (allowed : PolicyAllows platform s.roots) (sound : ¬ SpoiltRemoval platform fault s root) :
    AllOrNothing platform fault s (.removeRoot root) := by
  intro e t failed
  rcases @roots_call platform fault s held with ⟨_, u, refused, same, _⟩ | ⟨u, listed, same, counted, _⟩
  · simp only [Operation.run, Service.removeRoot, refused, Service.andThen_error] at failed
    cases failed
    exact sameRoots_of_eq same
  · simp only [Operation.run, Service.removeRoot, listed, Service.andThen_ok] at failed
    split at failed
    · cases failed
      exact sameRoots_of_eq same
    · rename_i prepared planned
      split at failed
      · rw [resolvePersistedRoots_held held, map_resolvePersistedRoot_path] at failed
        exact seedRootSet_sameRoots held allowed failed
      · rename_i ordinary
        have removed := @removeRoot_ran platform fault (resolveRootRequest platform root).path u
        rcases Service.andThen_eq_error failed with refused | ⟨_, v, done, failed⟩
        · rw [refused] at removed
          exact sameRoots_of_eq (removed.of_error.2.2.trans same)
        · rw [done] at removed
          obtain ⟨_, counted', gone⟩ := removed.of_ok
          have excluded := @applyExclusions_ran platform fault prepared.exclusions v
          rcases Service.andThen_eq_error failed with refused | ⟨_, w, _, failed⟩
          · rw [refused] at excluded
            obtain ⟨strikes, _, kept⟩ := excluded.of_error
            by_contra lost
            apply sound
            refine ⟨?_, ⟨prepared, planned, ?_⟩, ?_⟩
            · intro value member same override
              apply ordinary
              apply List.any_eq_true.mpr
              exact ⟨value, member, by simp [same, override]⟩
            · have first : v.calls = s.calls + 2 := by omega
              rwa [first] at strikes
            · intro unchanged
              apply lost
              rwa [kept, gone, same]
          · exact absurd failed succeed_ne_error

theorem removeRoot_sameRoots_iff (root : Bytes) (held : Held platform s.roots)
    (allowed : PolicyAllows platform s.roots) :
    AllOrNothing platform fault s (.removeRoot root) ↔ ¬ SpoiltRemoval platform fault s root :=
  ⟨removeRoot_spoilt root held, removeRoot_sameRoots root held allowed⟩

end Operations

/-- The one removal a failing exclusion can spoil. -/
def Operation.Spoilt (platform : Platform) (fault : Fault) (s : Service Abi) : Operation → Prop
  | .removeRoot root => SpoiltRemoval platform fault s root
  | _ => False

/-- Every operation is all-or-nothing on the root list, except for a removal whose
exclusions meet the fault after the root has gone. -/
theorem allOrNothing_iff (platform : Platform) (fault : Fault) (s : Service Abi) (op : Operation)
    (reachable : Reachable platform s.runtime.runtime) (allowed : PolicyAllows platform s.roots) :
    AllOrNothing platform fault s op ↔ ¬ op.Spoilt platform fault s := by
  have held : Held platform s.roots := reachable.held
  cases op with
  | addRoot root => exact iff_of_true (addRoot_sameRoots root held allowed) id
  | replaceRoots roots => exact iff_of_true (replaceRoots_sameRoots roots held allowed) id
  | removeRoot root => exact removeRoot_sameRoots_iff root held allowed
  | reindexAsync => exact iff_of_true (reindexAsync_sameRoots held allowed) id

/-- A machine with two users and an installed copy; only ASCII paths are asked about. -/
def sharedHost : WindowsHost where
  decodes _ := true
  decodes_cstr _ _ := rfl
  lowercase text := some (lower text)
  absolute := some
  knownFolder
    | .programData => lit "C:\\ProgramData"
    | .programFiles => lit "C:\\Program Files"
    | .programFilesX86 => lit "C:\\Program Files (x86)"
    | .profile => lit "C:\\Users\\u"
    | .roamingAppData => lit "C:\\Users\\u\\AppData\\Roaming"
    | .localAppData => lit "C:\\Users\\u\\AppData\\Local"
    | .localAppDataLow => lit "C:\\Users\\u\\AppData\\LocalLow"
    | .userProfiles => lit "C:\\Users"
  moduleFile := some (lit "C:\\Users\\u\\AppData\\Local\\Programs\\Such\\cli\\SuchCLI.exe")
  isRegularFile file := file == lit "C:\\Users\\u\\AppData\\Local\\Programs\\Such\\unins000.exe"
  isDirectory _ := true
  children parent :=
    if parent = lit "C:\\Users" then [lit "C:\\Users\\u", lit "C:\\Users\\v"]
    else if parent = lit "C:\\Users\\u\\AppData\\Local" then
      [lit "C:\\Users\\u\\AppData\\Local\\Temp", lit "C:\\Users\\u\\AppData\\Local\\Programs"]
    else if parent = lit "C:\\Users\\u\\AppData\\Local\\Programs" then
      [lit "C:\\Users\\u\\AppData\\Local\\Programs\\Such"]
    else []
  isReparsePoint _ := false

/-- A drive and a folder of another one, added one after the other. -/
def twoRoots : Service Abi where
  runtime := { runtime := { roots := [lit "C:\\", lit "D:\\work"], calls := 2 } }
  dialect := .windows

theorem twoRoots_reachable : Reachable (.windows sharedHost) twoRoots.runtime.runtime := by
  have drive : Reachable (.windows sharedHost) { roots := [lit "C:\\"], calls := 1 } :=
    .addRoot none (rfl : isPath (.windows sharedHost) (lit "C:\\") = true) .fresh
  exact .addRoot none (rfl : isPath (.windows sharedHost) (lit "D:\\work") = true) drive

theorem twoRoots_allowed : PolicyAllows (.windows sharedHost) twoRoots.roots := by
  cases h : prepareRootSet (.windows sharedHost)
      (resolvePersistedRoots (.windows sharedHost) twoRoots.roots) with
  | ok prepared => exact ⟨prepared, h⟩
  | error e =>
    have planned : (prepareRootSet (.windows sharedHost)
        (resolvePersistedRoots (.windows sharedHost) twoRoots.roots)).toBool = true := by decide +kernel
    rw [h] at planned
    contradiction

/-- The removal itself is refused, the call before the exclusions: both roots stay. -/
theorem refused_removal_keeps :
    ((Operation.removeRoot (lit "D:\\work")).run (.windows sharedHost)
        (some (3, lit "database is locked")) twoRoots).1 = .error (lit "database is locked") ∧
      AllOrNothing (.windows sharedHost) (some (3, lit "database is locked")) twoRoots
        (.removeRoot (lit "D:\\work")) := by
  refine ⟨by decide +kernel, ?_⟩
  apply (allOrNothing_iff (.windows sharedHost) _ twoRoots (.removeRoot (lit "D:\\work"))
    twoRoots_reachable twoRoots_allowed).mpr
  rintro ⟨_, ⟨_, _, ⟨_, member, low, _⟩⟩, _⟩
  cases member
  exact absurd low (by decide)

/-- The first exclusion after the removal fails: the operation reports failure and the
root is gone. -/
theorem failed_removal_loses_root :
    Reachable (.windows sharedHost) twoRoots.runtime.runtime ∧
      PolicyAllows (.windows sharedHost) twoRoots.roots ∧
      ¬ AllOrNothing (.windows sharedHost) (some (4, lit "database is locked")) twoRoots
        (.removeRoot (lit "D:\\work")) := by
  refine ⟨twoRoots_reachable, twoRoots_allowed, ?_⟩
  intro kept
  have failed : ((Operation.removeRoot (lit "D:\\work")).run (.windows sharedHost)
      (some (4, lit "database is locked")) twoRoots).1 = .error (lit "database is locked") := by
    decide +kernel
  have same := kept _ _ (Prod.ext failed rfl)
  simp only [SameRoots] at same
  revert same
  decide +kernel

end Such.IndexRootService
