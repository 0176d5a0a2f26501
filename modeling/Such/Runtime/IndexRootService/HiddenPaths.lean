import Such.Runtime.IndexRootService.RootTable

/-! The exclusion table when an operation reports failure: a rollback derives it from the
root list, so what the user has hidden besides is gone. -/
namespace Such.IndexRootService
open ByteText LexicalPath IndexPathPolicy RuntimeClient KeyedList

/-- The set an operation reseeds the runtime with, if it comes to that. -/
def Operation.reseed (platform : Platform) (s : Service Abi) (op : Operation) : Option PreparedRootSet :=
  let current := resolvePersistedRoots platform s.roots
  match op with
  | .addRoot root =>
    let requested := resolveRootRequest platform root
    if requested.overrideMode = .explicitCurrentUserAppData then
      (prepareRootSet platform (current ++ [requested])).toOption
    else none
  | .replaceRoots roots => (prepareRootSet platform (roots.map (resolveRootRequest platform))).toOption
  | .removeRoot root =>
    let requested := resolveRootRequest platform root
    if current.any fun value =>
        Service.sameRoot platform value requested && value.overrideMode == .explicitCurrentUserAppData then
      (prepareRootSet platform
        (current.filter fun value => !Service.sameRoot platform value requested)).toOption
    else none
  | .reindexAsync => if s.roots.isEmpty then none else (prepareRootSet platform current).toOption

/-- The reseeding, which follows on the listing of the roots, meets the fault. -/
def Operation.RollsBack (platform : Platform) (fault : Fault) (s : Service Abi) (op : Operation) : Prop :=
  ∃ prepared, op.reseed platform s = some prepared ∧
    Strikes fault (s.calls + 1) (1 + (prepared.exclusions.length + prepared.roots.length))

/-- What failure leaves of the table: after a rollback the plan for the roots from before,
else at least all there was. -/
structure Aftermath (platform : Platform) (fault : Fault) (s : Service Abi) (op : Operation)
    (t : Service Abi) : Prop where
  rolledBack : op.RollsBack platform fault s → ∀ previous,
    prepareRootSet platform (resolvePersistedRoots platform s.roots) = .ok previous →
      t.table = previous.exclusions.map cstr
  kept : ¬ op.RollsBack platform fault s → s.table ⊆ t.table

section Failures
variable {platform : Platform} {fault : Fault} {s t u : Service Abi} {op : Operation}

theorem aftermath_of_strike (early : Strikes fault s.calls 1) (same : t.table = s.table) :
    Aftermath platform fault s op t := by
  refine ⟨?_, fun _ => same ▸ List.Subset.refl _⟩
  rintro ⟨_, _, late⟩
  exact absurd early (late.after (Nat.le_refl _))

theorem aftermath_of_no_reseed (idle : op.reseed platform s = none) (kept : s.table ⊆ t.table) :
    Aftermath platform fault s op t := by
  refine ⟨?_, fun _ => kept⟩
  rintro ⟨prepared, some_, _⟩
  cases idle.symm.trans some_

/-- A reseeding that fails has met the fault, so its rollback goes through. -/
theorem seedRootSet_error {prepared previous : PreparedRootSet} {roots : List Bytes} {e : Bytes}
    (planned : prepareRootSet platform (roots.map (resolvePersistedRoot platform)) = .ok previous)
    (failed : s.seedRootSet platform (Abi.library platform fault) prepared roots = (.error e, t)) :
    t.table = previous.exclusions.map cstr := by
  have ran := @applyPreparedRootSet_ran platform fault prepared s
  simp only [Service.seedRootSet] at failed
  split at failed
  · rename_i primary u refused
    rw [refused] at ran
    obtain ⟨v, applied, _, _⟩ :=
      (@applyPreparedRootSet_ran platform fault previous u).of_not_strikes (ran.of_error.2.1.not_strikes _)
    simp only [Service.rollbackRoots, Service.restoreRoots] at failed
    simp only [planned, applied, Prod.mk.injEq] at failed
    rw [← failed.2, Service.table_requestMaintenance]
    exact (applyPreparedRootSet_ok applied).2
  · cases congrArg Prod.fst failed

theorem aftermath_of_reseed {prepared : PreparedRootSet} {e : Bytes} (held : Held platform s.roots)
    (counted : u.calls = s.calls + 1) (reseed : op.reseed platform s = some prepared)
    (failed : u.seedRootSet platform (Abi.library platform fault) prepared s.roots = (.error e, t)) :
    Aftermath platform fault s op t := by
  constructor
  · intro _ previous planned
    rw [resolvePersistedRoots_held held] at planned
    exact seedRootSet_error planned failed
  · intro unstruck
    have ran := @applyPreparedRootSet_ran platform fault prepared u
    simp only [Service.seedRootSet] at failed
    split at failed
    · rename_i primary v refused
      rw [refused] at ran
      exact absurd ⟨prepared, reseed, counted ▸ ran.of_error.1⟩ unstruck
    · cases congrArg Prod.fst failed

theorem roots_cases (held : Held platform s.roots) :
    (∃ e t, s.call (Loaded.roots (Abi.library platform fault)) = (.error e, t) ∧
        t.table = s.table ∧ Strikes fault s.calls 1) ∨
      ∃ t, s.call (Loaded.roots (Abi.library platform fault)) = (.ok s.roots, t) ∧
        t.roots = s.roots ∧ t.table = s.table ∧ t.calls = s.calls + 1 := by
  have table := @roots_table platform fault s
  rcases @roots_call platform fault s held with ⟨e, t, refused, _, early⟩ | ⟨t, listed, same, counted, _⟩
  · rw [refused] at table
    exact .inl ⟨e, t, refused, table, early⟩
  · rw [listed] at table
    exact .inr ⟨t, listed, same, table, counted⟩

theorem addRoot_aftermath {root : Bytes} {e : Bytes} (held : Held platform s.roots)
    (failed : (Operation.addRoot root).run platform fault s = (.error e, t)) :
    Aftermath platform fault s (.addRoot root) t := by
  rcases @roots_cases platform fault s held with ⟨_, u, refused, same, early⟩ | ⟨u, listed, _, same, counted⟩
  · simp only [Operation.run, Service.addRoot, refused, Service.andThen_error] at failed
    cases failed
    exact aftermath_of_strike early same
  · simp only [Operation.run, Service.addRoot, listed, Service.andThen_ok] at failed
    split at failed
    · rename_i rejected
      cases failed
      apply aftermath_of_no_reseed _ (same ▸ List.Subset.refl _)
      simp only [Operation.reseed, rejected, Except.toOption, ite_self]
    · rename_i prepared planned
      split at failed
      · rename_i explicit
        rw [resolvePersistedRoots_held held, map_resolvePersistedRoot_path] at failed
        apply aftermath_of_reseed held counted _ failed
        simp only [Operation.reseed, if_pos explicit, planned, Except.toOption]
      · rename_i ordinary
        have idle : (Operation.addRoot root).reseed platform s = none := if_neg ordinary
        apply aftermath_of_no_reseed idle
        have excluded := @applyExclusions_subset platform fault prepared.exclusions u
        rw [← same]
        rcases Service.andThen_eq_error failed with refused | ⟨_, v, done, failed⟩
        · rw [refused] at excluded
          exact excluded
        · rw [done] at excluded
          split at failed
          · exact absurd failed succeed_ne_error
          · rcases Service.andThen_eq_error failed with refused | ⟨_, w, _, failed⟩
            · exact (attempt_error refused).2 ▸ excluded
            · exact absurd failed succeed_ne_error

theorem replaceRoots_aftermath {roots : List Bytes} {e : Bytes} (held : Held platform s.roots)
    (failed : (Operation.replaceRoots roots).run platform fault s = (.error e, t)) :
    Aftermath platform fault s (.replaceRoots roots) t := by
  change s.replaceRoots platform (Abi.library platform fault) roots = (.error e, t) at failed
  simp only [Service.replaceRoots] at failed
  split at failed
  · rename_i rejected
    cases failed
    apply aftermath_of_no_reseed _ (List.Subset.refl _)
    simp only [Operation.reseed, rejected, Except.toOption]
  · rename_i prepared planned
    rcases @roots_cases platform fault s held with ⟨_, u, refused, same, early⟩ | ⟨u, listed, _, _, counted⟩
    · rw [refused] at failed
      cases failed
      exact aftermath_of_strike early same
    · rw [listed, Service.andThen_ok, pathFromUtf8_held held] at failed
      apply aftermath_of_reseed held counted _ failed
      simp only [Operation.reseed, planned, Except.toOption]

theorem removeRoot_aftermath {root : Bytes} {e : Bytes} (held : Held platform s.roots)
    (failed : (Operation.removeRoot root).run platform fault s = (.error e, t)) :
    Aftermath platform fault s (.removeRoot root) t := by
  rcases @roots_cases platform fault s held with ⟨_, u, refused, same, early⟩ | ⟨u, listed, _, same, counted⟩
  · simp only [Operation.run, Service.removeRoot, refused, Service.andThen_error] at failed
    cases failed
    exact aftermath_of_strike early same
  · simp only [Operation.run, Service.removeRoot, listed, Service.andThen_ok] at failed
    split at failed
    · rename_i rejected
      cases failed
      apply aftermath_of_no_reseed _ (same ▸ List.Subset.refl _)
      simp only [Operation.reseed, rejected, Except.toOption, ite_self]
    · rename_i prepared planned
      split at failed
      · rename_i explicit
        rw [resolvePersistedRoots_held held, map_resolvePersistedRoot_path] at failed
        apply aftermath_of_reseed held counted _ failed
        simp only [Operation.reseed, if_pos explicit, planned, Except.toOption]
      · rename_i ordinary
        have idle : (Operation.removeRoot root).reseed platform s = none := if_neg ordinary
        apply aftermath_of_no_reseed idle
        rw [← same]
        rcases Service.andThen_eq_error failed with refused | ⟨_, v, removed, failed⟩
        · exact (attempt_error refused).2 ▸ List.Subset.refl _
        · have kept : v.table = u.table := (attempt_ok removed).2
          have excluded := @applyExclusions_subset platform fault prepared.exclusions v
          rcases Service.andThen_eq_error failed with refused | ⟨_, w, _, failed⟩
          · rw [refused] at excluded
            exact kept ▸ excluded
          · exact absurd failed succeed_ne_error

theorem reindexAsync_aftermath {e : Bytes} (held : Held platform s.roots)
    (failed : Operation.reindexAsync.run platform fault s = (.error e, t)) :
    Aftermath platform fault s .reindexAsync t := by
  rcases @roots_cases platform fault s held with ⟨_, u, refused, same, early⟩ | ⟨u, listed, _, same, counted⟩
  · simp only [Operation.run, Service.reindexAsync, refused, Service.andThen_error] at failed
    cases failed
    exact aftermath_of_strike early same
  · simp only [Operation.run, Service.reindexAsync, listed, Service.andThen_ok] at failed
    split at failed
    · exact absurd failed succeed_ne_error
    · rename_i some_
      split at failed
      · rename_i rejected
        cases failed
        apply aftermath_of_no_reseed _ (same ▸ List.Subset.refl _)
        simp only [Operation.reseed, rejected, Except.toOption, ite_self]
      · rename_i prepared planned
        rw [pathFromUtf8_held held] at failed
        apply aftermath_of_reseed held counted _ failed
        simp only [Operation.reseed, if_neg some_, planned, Except.toOption]

end Failures

/-- After a failure without a rollback everything excluded before is excluded. A rollback
brings back what the policy excludes for the roots from before, and nothing else. -/
theorem failure_keeps_policy_exclusions (platform : Platform) (fault : Fault) (s t : Service Abi)
    (op : Operation) (e : Bytes) (reachable : Reachable platform s.runtime.runtime)
    (failed : op.run platform fault s = (.error e, t)) : Aftermath platform fault s op t := by
  have held : Held platform s.roots := reachable.held
  cases op with
  | addRoot root => exact addRoot_aftermath held failed
  | replaceRoots roots => exact replaceRoots_aftermath held failed
  | removeRoot root => exact removeRoot_aftermath held failed
  | reindexAsync => exact reindexAsync_aftermath held failed

/-- One root, below which the user has hidden a file. -/
def concealing : Service Abi where
  runtime := { runtime := { roots := [lit "/home/u"], excluded := [lit "/home/u/diary"], calls := 2 } }
  dialect := .unixLike

/-- Adding the new root of a replacement fails. -/
def fullDisk : Fault := some (4, lit "disk full")

theorem concealing_reachable : Reachable (.posix some) concealing.runtime.runtime := by
  have listed : Reachable (.posix some) { roots := [lit "/home/u"], calls := 1 } :=
    .addRoot none (rfl : isPath (.posix some) (lit "/home/u") = true) .fresh
  exact .setIndexed none (lit "/home/u/diary") false listed

/-- The rollback leaves the policy's exclusions, of which there are none. -/
theorem concealing_aftermath : Aftermath (.posix some) fullDisk concealing
    (.replaceRoots [lit "/data"])
    ((Operation.replaceRoots [lit "/data"]).run (.posix some) fullDisk concealing).2 :=
  failure_keeps_policy_exclusions (.posix some) fullDisk concealing _ (.replaceRoots [lit "/data"])
    (lit "disk full") concealing_reachable (Prod.ext (by decide +kernel) rfl)

/-- A replacement fails, its rollback succeeds and brings the root back, and the file the
user has hidden is not hidden any more. -/
theorem rollback_forgets_hidden :
    Reachable (.posix some) concealing.runtime.runtime ∧
      let result := (Operation.replaceRoots [lit "/data"]).run (.posix some) fullDisk concealing
      result.1 = .error (lit "disk full") ∧ result.2.roots = concealing.roots ∧
        lit "/home/u/diary" ∈ concealing.table ∧ lit "/home/u/diary" ∉ result.2.table :=
  ⟨concealing_reachable, by decide +kernel⟩

end Such.IndexRootService
