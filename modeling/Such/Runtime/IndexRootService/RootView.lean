import Such.Runtime.IndexRootService.RootTable

/-! A runtime with states of its own, which show a root list among other things. What its root
operations come to is what they come to over the bare table, up to the texts of the errors. -/
namespace Such.IndexRootService
open ByteText LexicalPath IndexPathPolicy RuntimeClient KeyedList

/-- What the root calls see of a runtime's state: its roots, and how many calls that can fail it has
answered. -/
structure RootView (σ : Type) where
  roots : σ → List Bytes
  calls : σ → Nat

namespace RootView
variable {σ : Type} (view : RootView σ)

def Shows (r : σ) (a : Abi) : Prop := view.roots r = a.roots ∧ view.calls r = a.calls

/-- The same answer, and states that show the same. -/
def Alike {β : Type} (x : β × σ) (y : β × Abi) : Prop := x.1 = y.1 ∧ view.Shows x.2 y.2

/-- The table that a state shows. -/
def shown (r : σ) : Abi := { roots := view.roots r, calls := view.calls r }

theorem shows_shown (r : σ) : view.Shows r (view.shown r) := ⟨rfl, rfl⟩

end RootView

/-- The root calls answer by what is shown and change it as they change a table, the one call of the
fault refused. The index, the crawl, the exclusions and the texts of the errors are left open. -/
structure Tabled {σ : Type} (platform : Platform) (fault : Fault) (library : Library σ)
    (view : RootView σ) : Prop where
  addRoot : ∀ root {r a}, view.Shows r a →
    view.Alike (library.addRoot root r) ((Abi.library platform fault).addRoot root a)
  replaceRoots : ∀ roots {r a}, view.Shows r a →
    view.Alike (library.replaceRoots roots r) ((Abi.library platform fault).replaceRoots roots a)
  listRoots : ∀ {r a}, view.Shows r a →
    view.Alike (library.listRoots r) ((Abi.library platform fault).listRoots a)
  setIndexed : ∀ path indexed {r a}, view.Shows r a → view.Alike (library.setIndexed path indexed r)
    ((Abi.library platform fault).setIndexed path indexed a)
  setPinned : ∀ path pinned {r a}, view.Shows r a → view.Alike (library.setPinned path pinned r)
    ((Abi.library platform fault).setPinned path pinned a)
  reindexAsync : ∀ {r a}, view.Shows r a → view.Shows (library.reindexAsync r) a
  status : ∀ r, view.roots (library.status r).2 = view.roots r

namespace Service
variable {σ : Type} {platform : Platform} {fault : Fault} {library : Library σ} {view : RootView σ}
  {s : Service σ} {t : Service Abi}

def rootsIn (view : RootView σ) (s : Service σ) : List Bytes := view.roots s.runtime.runtime

/-- The service over the table that is shown. -/
def shown (view : RootView σ) (s : Service σ) : Service Abi where
  runtime := { runtime := view.shown s.runtime.runtime }
  dialect := s.dialect
  maintenance := s.maintenance

/-- Outcomes that differ in the text of an error at most, with services that show the same. -/
def Mirrors {α : Type} (view : RootView σ) (x : Except Bytes α × Service σ)
    (y : Except Bytes α × Service Abi) : Prop :=
  x.1.toOption = y.1.toOption ∧ view.Shows x.2.runtime.runtime y.2.runtime.runtime

theorem Mirrors.of_error {α : Type} {e : Bytes} {u : Service σ} {y : Except Bytes α × Service Abi}
    (mirrors : Mirrors view (.error e, u) y) :
    ∃ e' t, y = (.error e', t) ∧ u.rootsIn view = t.roots := by
  obtain ⟨result, t⟩ := y
  cases result with
  | error e' => exact ⟨e', t, rfl, mirrors.2.1⟩
  | ok a => cases mirrors.1

theorem Mirrors.of_ok {α : Type} {a : α} {u : Service σ} {y : Except Bytes α × Service Abi}
    (mirrors : Mirrors view (.ok a, u) y) :
    ∃ t, y = (.ok a, t) ∧ u.rootsIn view = t.roots := by
  obtain ⟨result, t⟩ := y
  cases result with
  | error e' => cases mirrors.1
  | ok b =>
    cases mirrors.1
    exact ⟨t, rfl, mirrors.2.1⟩

theorem andThen_mirrors {α β : Type} {x : Except Bytes α × Service σ}
    {y : Except Bytes α × Service Abi} {f : α → Service σ → Except Bytes β × Service σ}
    {g : α → Service Abi → Except Bytes β × Service Abi} (first : Mirrors view x y)
    (next : ∀ a s t, view.Shows s.runtime.runtime t.runtime.runtime → Mirrors view (f a s) (g a t)) :
    Mirrors view (andThen x f) (andThen y g) := by
  obtain ⟨result, s⟩ := x
  obtain ⟨result', t⟩ := y
  obtain ⟨same, shows_⟩ := first
  cases result with
  | error e =>
    cases result' with
    | error e' => exact ⟨rfl, shows_⟩
    | ok b => cases same
  | ok a =>
    cases result' with
    | error e' => cases same
    | ok b =>
      cases same
      exact next a s t shows_

theorem mutate_mirrors {call : σ → Bool × σ} {call' : Abi → Bool × Abi}
    (alike : view.Alike (call s.runtime.runtime) (call' t.runtime.runtime)) :
    Mirrors view (s.call (Loaded.mutate library call))
      (t.call (Loaded.mutate (Abi.library platform fault) call')) := by
  simp only [Service.call, Loaded.mutate]
  generalize call s.runtime.runtime = x at alike
  generalize call' t.runtime.runtime = y at alike
  obtain ⟨made, r⟩ := x
  obtain ⟨made', a⟩ := y
  obtain ⟨same, shows_⟩ := alike
  cases same
  cases made <;> exact ⟨rfl, shows_⟩

theorem succeed_mirrors (shows_ : view.Shows s.runtime.runtime t.runtime.runtime) :
    Mirrors view s.succeed t.succeed := by
  have same : ∀ {ρ : Type} (u : Service ρ), u.requestMaintenance.runtime = u.runtime := by
    intro ρ u
    simp only [requestMaintenance]
    split <;> rfl
  refine ⟨rfl, ?_⟩
  simp only [succeed, same]
  exact shows_

section Operations
variable (tabled : Tabled platform fault library view)
  (shows_ : view.Shows s.runtime.runtime t.runtime.runtime)
include tabled shows_

theorem roots_mirrors : Mirrors view (s.call (Loaded.roots library))
    (t.call (Loaded.roots (Abi.library platform fault))) := by
  have alike := tabled.listRoots shows_
  simp only [Service.call, Loaded.roots]
  generalize library.listRoots s.runtime.runtime = x at alike
  generalize (Abi.library platform fault).listRoots t.runtime.runtime = y at alike
  obtain ⟨listed, r⟩ := x
  obtain ⟨listed', a⟩ := y
  obtain ⟨same, after⟩ := alike
  cases same
  cases listed <;> exact ⟨rfl, after⟩

theorem applyExclusion_mirrors (excluded : Bytes) : Mirrors view (s.applyExclusion library excluded)
    (t.applyExclusion (Abi.library platform fault) excluded) := by
  have made : Mirrors view (s.call (Loaded.setIndexed library excluded false))
      (t.call (Loaded.setIndexed (Abi.library platform fault) excluded false)) :=
    mutate_mirrors (tabled.setIndexed (cstr excluded) false shows_)
  simp only [applyExclusion]
  generalize s.call (Loaded.setIndexed library excluded false) = x at made
  generalize t.call (Loaded.setIndexed (Abi.library platform fault) excluded false) = y at made
  obtain ⟨result | done, u⟩ := x
  · obtain ⟨e, v, rfl, -⟩ := made.of_error
    exact ⟨rfl, made.2⟩
  · obtain ⟨v, rfl, -⟩ := made.of_ok
    exact made

theorem applyExclusions_mirrors (exclusions : List Bytes) :
    Mirrors view (s.applyExclusions library exclusions)
      (t.applyExclusions (Abi.library platform fault) exclusions) := by
  induction exclusions generalizing s t with
  | nil => exact ⟨rfl, shows_⟩
  | cons excluded rest ih =>
    exact andThen_mirrors (applyExclusion_mirrors tabled shows_ excluded) fun _ _ _ => ih

theorem addRoots_mirrors (roots : List ResolvedRoot) : Mirrors view (s.addRoots library roots)
    (t.addRoots (Abi.library platform fault) roots) := by
  induction roots generalizing s t with
  | nil => exact ⟨rfl, shows_⟩
  | cons root rest ih =>
    exact andThen_mirrors (mutate_mirrors (tabled.addRoot _ shows_)) fun _ _ _ => ih

theorem applyPreparedRootSet_mirrors (prepared : PreparedRootSet) :
    Mirrors view (s.applyPreparedRootSet library prepared)
      (t.applyPreparedRootSet (Abi.library platform fault) prepared) :=
  andThen_mirrors (mutate_mirrors (tabled.replaceRoots _ shows_)) fun _ _ _ cleared =>
    andThen_mirrors (applyExclusions_mirrors tabled cleared _) fun _ _ _ excluded =>
      addRoots_mirrors tabled excluded _

theorem rollbackRoots_mirrors (previous : List Bytes) (primary primary' : Bytes) :
    Mirrors view (s.rollbackRoots platform library previous primary)
      (t.rollbackRoots platform (Abi.library platform fault) previous primary') := by
  have restored : Mirrors view (s.restoreRoots platform library previous)
      (t.restoreRoots platform (Abi.library platform fault) previous) := by
    simp only [restoreRoots]
    cases prepareRootSet platform (previous.map (resolvePersistedRoot platform)) with
    | error e => exact ⟨rfl, shows_⟩
    | ok prepared => exact applyPreparedRootSet_mirrors tabled shows_ prepared
  exact ⟨rfl, (succeed_mirrors restored.2).2⟩

theorem seedRootSet_mirrors (prepared : PreparedRootSet) (previous : List Bytes) :
    Mirrors view (s.seedRootSet platform library prepared previous)
      (t.seedRootSet platform (Abi.library platform fault) prepared previous) := by
  have applied := applyPreparedRootSet_mirrors tabled shows_ prepared
  simp only [seedRootSet]
  generalize s.applyPreparedRootSet library prepared = x at applied
  generalize t.applyPreparedRootSet (Abi.library platform fault) prepared = y at applied
  obtain ⟨result | done, u⟩ := x
  · obtain ⟨e, v, rfl, -⟩ := applied.of_error
    exact rollbackRoots_mirrors tabled applied.2 previous result e
  · obtain ⟨v, rfl, -⟩ := applied.of_ok
    exact succeed_mirrors applied.2

theorem addRoot_mirrors (root : Bytes) : Mirrors view (s.addRoot platform library root)
    (t.addRoot platform (Abi.library platform fault) root) := by
  refine andThen_mirrors (roots_mirrors tabled shows_) fun values s t listed => ?_
  dsimp only
  cases prepareRootSet platform
      (resolvePersistedRoots platform values ++ [resolveRootRequest platform root]) with
  | error e => exact ⟨rfl, listed⟩
  | ok prepared =>
    dsimp only
    by_cases explicit : (resolveRootRequest platform root).overrideMode = .explicitCurrentUserAppData
    · simp only [if_pos explicit]
      exact seedRootSet_mirrors tabled listed prepared _
    · simp only [if_neg explicit]
      refine andThen_mirrors (applyExclusions_mirrors tabled listed _) fun _ s t excluded => ?_
      by_cases present : (resolvePersistedRoots platform values).any
          (sameRoot platform · (resolveRootRequest platform root)) = true
      · simp only [if_pos present]
        exact succeed_mirrors excluded
      · simp only [if_neg present]
        exact andThen_mirrors (mutate_mirrors (tabled.addRoot _ excluded)) fun _ _ _ =>
          succeed_mirrors

theorem replaceRoots_mirrors (roots : List Bytes) :
    Mirrors view (s.replaceRoots platform library roots)
      (t.replaceRoots platform (Abi.library platform fault) roots) := by
  simp only [replaceRoots]
  cases prepareRootSet platform (roots.map (resolveRootRequest platform)) with
  | error e => exact ⟨rfl, shows_⟩
  | ok prepared =>
    exact andThen_mirrors (roots_mirrors tabled shows_) fun _ _ _ listed =>
      seedRootSet_mirrors tabled listed prepared _

theorem reindexAsync_mirrors : Mirrors view (s.reindexAsync platform library)
    (t.reindexAsync platform (Abi.library platform fault)) := by
  refine andThen_mirrors (roots_mirrors tabled shows_) fun values s t listed => ?_
  cases values with
  | nil =>
    exact succeed_mirrors (s := { s with runtime := s.runtime.reindexAsync library })
      (tabled.reindexAsync listed)
  | cons first rest =>
    simp only [List.isEmpty_cons, Bool.false_eq_true, if_false]
    cases prepareRootSet platform (resolvePersistedRoots platform (first :: rest)) with
    | error e => exact ⟨rfl, listed⟩
    | ok prepared => exact seedRootSet_mirrors tabled listed prepared _

end Operations
end Service

section Kept
variable {σ : Type} {platform : Platform} {fault : Fault} {library : Library σ} {view : RootView σ}

theorem Tabled.setIndexed_roots (tabled : Tabled platform fault library view) (path : Bytes)
    (indexed : Bool) (r : σ) : view.roots (library.setIndexed path indexed r).2 = view.roots r := by
  have after := (tabled.setIndexed path indexed (view.shows_shown r)).2.1
  rcases attempt_roots fault (Abi.markIndexed path indexed) (view.shown r) with same | same <;>
    exact after.trans same

theorem Tabled.listRoots_roots (tabled : Tabled platform fault library view) (r : σ) :
    view.roots (library.listRoots r).2 = view.roots r := (tabled.listRoots (view.shows_shown r)).2.1

end Kept
end Such.IndexRootService
