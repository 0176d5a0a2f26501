import Such.Runtime.IndexRootService

/-! What every function of the library keeps of its own state, the service keeps through all its
calls. -/
namespace Such.IndexRootService
open ByteText LexicalPath IndexPathPolicy RuntimeClient CivilTime

/-- The functions a poll of the maintenance calls keep a property of the runtime's state. -/
structure KeptByPolls {σ : Type} (library : Library σ) (P : σ → Prop) : Prop where
  listRoots : ∀ {r}, P r → P (library.listRoots r).2
  setIndexed : ∀ {r} path indexed, P r → P (library.setIndexed path indexed r).2
  status : ∀ {r}, P r → P (library.status r).2

/-- So do those a change of the roots calls. -/
structure KeptByCalls {σ : Type} (library : Library σ) (P : σ → Prop) : Prop
    extends KeptByPolls library P where
  addRoot : ∀ {r} root, P r → P (library.addRoot root r).2
  removeRoot : ∀ {r} root, P r → P (library.removeRoot root r).2
  replaceRoots : ∀ {r} roots, P r → P (library.replaceRoots roots r).2
  reindexAsync : ∀ {r}, P r → P (library.reindexAsync r)

namespace Service
variable {σ : Type} {platform : Platform} {library : Library σ} {P : σ → Prop} {s : Service σ}

/-- The runtime a service holds has the property. -/
def Has (P : σ → Prop) (s : Service σ) : Prop := P s.runtime.runtime

theorem mutate_has {call : σ → Bool × σ} (keeps : ∀ {r}, P r → P (call r).2) (has : s.Has P) :
    (s.call (Loaded.mutate library call)).2.Has P := by
  have after : (s.call (Loaded.mutate library call)).2.runtime.runtime =
      (call s.runtime.runtime).2 := by
    simp only [Service.call, Loaded.mutate]
    rcases call s.runtime.runtime with ⟨made | made, runtime⟩ <;> rfl
  simp only [Has]
  rw [after]
  exact keeps has

theorem andThen_has {α β : Type} {first : Except Bytes α × Service σ}
    {next : α → Service σ → Except Bytes β × Service σ} (before : first.2.Has P)
    (after : ∀ a u, u.Has P → (next a u).2.Has P) : (andThen first next).2.Has P := by
  obtain ⟨result, u⟩ := first
  cases result with
  | error e => exact before
  | ok a => exact after a u before

theorem requestMaintenance_has (has : s.Has P) : s.requestMaintenance.Has P := by
  simp only [requestMaintenance]
  split <;> exact has

theorem succeed_has (has : s.Has P) : s.succeed.2.Has P := requestMaintenance_has has

section Polls
variable (kept : KeptByPolls library P)
include kept

theorem setIndexed_has (path : Bytes) (indexed : Bool) (has : s.Has P) :
    (s.call (Loaded.setIndexed library path indexed)).2.Has P :=
  mutate_has (kept.setIndexed (cstr path) indexed) has

theorem roots_has (has : s.Has P) : (s.call (Loaded.roots library)).2.Has P := by
  have after : (s.call (Loaded.roots library)).2.runtime.runtime =
      (library.listRoots s.runtime.runtime).2 := by
    simp only [Service.call, Loaded.roots]
    rcases library.listRoots s.runtime.runtime with ⟨listed | listed, runtime⟩ <;> rfl
  simp only [Has]
  rw [after]
  exact kept.listRoots has

theorem status_has (has : s.Has P) : (s.call (Loaded.status library)).2.Has P := by
  have listed := roots_has kept has
  have after : (s.call (Loaded.status library)).2.runtime.runtime =
      (library.status (s.call (Loaded.roots library)).2.runtime.runtime).2 := by
    simp only [Service.call, Loaded.status]
    rcases library.status (s.runtime.roots library).2.runtime with ⟨raw | raw, runtime⟩ <;> rfl
  simp only [Has]
  rw [after]
  exact kept.status listed

theorem applyExclusions_has (exclusions : List Bytes) (has : s.Has P) :
    (s.applyExclusions library exclusions).2.Has P := by
  induction exclusions generalizing s with
  | nil => exact has
  | cons excluded rest ih =>
    refine andThen_has ?_ fun _ u => ih
    have excludes := setIndexed_has kept excluded false has
    simp only [applyExclusion]
    split <;> rename_i made <;> rw [made] at excludes <;> exact excludes

theorem applyFixed_has (budget : Nat) (has : s.Has P) : (s.applyFixed library budget).Has P := by
  induction budget generalizing s with
  | zero => exact has
  | succ budget ih =>
    simp only [applyFixed]
    split
    · exact has
    · exact ih (setIndexed_has kept _ false has)

theorem applyPrefixes_has (term applied : Nat) (noisePaths : List Bytes) (has : s.Has P) :
    (s.applyPrefixes platform library term applied noisePaths).2.Has P := by
  induction noisePaths generalizing applied s with
  | nil => exact has
  | cons noisePath rest ih =>
    have excludes := setIndexed_has kept noisePath false has
    simp only [applyPrefixes]
    split
    · exact ih applied has
    · split <;> rename_i made <;> rw [made] at excludes
      · exact ih applied excludes
      · split
        · exact excludes
        · exact ih (applied + 1) excludes

theorem scrubFixed_has (has : s.Has P) : (s.scrubFixed platform library).2.Has P := by
  have listed := roots_has kept has
  have prepared : (s.prepareFixedMaintenance platform library).2.Has P := by
    simp only [prepareFixedMaintenance]
    split <;> rename_i made <;> rw [made] at listed
    · exact listed
    · split <;> exact listed
  simp only [scrubFixed]
  generalize s.prepareFixedMaintenance platform library = outcome at prepared
  cases s.maintenance.fixedReady with
  | true => exact applyFixed_has kept _ has
  | false =>
    simp only [Bool.false_eq_true, if_false]
    split
    · exact applyFixed_has kept _ prepared
    · exact prepared

theorem scrubTerm_has (around : Surroundings) (has : s.Has P) :
    (s.scrubTerm platform library around).Has P := by
  simp only [scrubTerm]
  split
  · exact has
  · rename_i noiseName named
    have searched : (s.call (Loaded.search library around.zone s.dialect around.now noiseName
        512)).2.Has P := has
    split
    · exact searched
    · exact applyPrefixes_has kept _ _ _ searched

/-- One poll keeps it, whatever it finds to exclude. -/
theorem scrubOneBatch_has (around : Surroundings) (has : s.Has P) :
    (s.scrubOneBatch platform library around).Has P := by
  have seen := status_has kept has
  simp only [scrubOneBatch]
  split
  · exact has
  · split
    · exact seen
    · have fixed := @scrubFixed_has _ platform _ _ _ kept seen
      simp only [scrubIdle]
      split
      · exact fixed
      · split
        · exact fixed
        · exact scrubTerm_has kept around fixed

end Polls

section Operations
variable (kept : KeptByCalls library P)
include kept

theorem addRoots_has (roots : List ResolvedRoot) (has : s.Has P) :
    (s.addRoots library roots).2.Has P := by
  induction roots generalizing s with
  | nil => exact has
  | cons root rest ih => exact andThen_has (mutate_has (kept.addRoot _) has) fun _ u => ih

theorem applyPreparedRootSet_has (prepared : PreparedRootSet) (has : s.Has P) :
    (s.applyPreparedRootSet library prepared).2.Has P :=
  andThen_has (mutate_has (kept.replaceRoots _) has) fun _ _ cleared =>
    andThen_has (applyExclusions_has kept.toKeptByPolls _ cleared) fun _ _ => addRoots_has kept _

theorem seedRootSet_has (prepared : PreparedRootSet) (previous : List Bytes) (has : s.Has P) :
    (s.seedRootSet platform library prepared previous).2.Has P := by
  have applied := applyPreparedRootSet_has kept prepared has
  have restored : ∀ u : Service σ, u.Has P →
      (u.restoreRoots platform library previous).2.Has P := by
    intro u spoilt
    simp only [restoreRoots]
    split
    · exact spoilt
    · exact applyPreparedRootSet_has kept _ spoilt
  simp only [seedRootSet]
  split <;> rename_i made <;> rw [made] at applied
  · exact requestMaintenance_has (restored _ applied)
  · exact succeed_has applied

theorem addRoot_has (root : Bytes) (has : s.Has P) : (s.addRoot platform library root).2.Has P := by
  refine andThen_has (roots_has kept.toKeptByPolls has) fun values u listed => ?_
  dsimp only
  split
  · exact listed
  · split
    · exact seedRootSet_has kept _ _ listed
    · refine andThen_has (applyExclusions_has kept.toKeptByPolls _ listed) fun _ v excluded => ?_
      split
      · exact succeed_has excluded
      · exact andThen_has (mutate_has (kept.addRoot _) excluded) fun _ _ => succeed_has

theorem replaceRoots_has (roots : List Bytes) (has : s.Has P) :
    (s.replaceRoots platform library roots).2.Has P := by
  simp only [replaceRoots]
  split
  · exact has
  · exact andThen_has (roots_has kept.toKeptByPolls has) fun _ _ => seedRootSet_has kept _ _

theorem reindexAsync_has (has : s.Has P) : (s.reindexAsync platform library).2.Has P := by
  refine andThen_has (roots_has kept.toKeptByPolls has) fun values u listed => ?_
  split
  · exact succeed_has (s := { u with runtime := u.runtime.reindexAsync library })
      (kept.reindexAsync listed)
  · split
    · exact listed
    · exact seedRootSet_has kept _ _ listed

end Operations
end Service
end Such.IndexRootService
