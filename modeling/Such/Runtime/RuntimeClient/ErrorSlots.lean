import Such.Base.DrivenMachine
import Such.Runtime.RuntimeClient.Lifecycle

/-! Two places hold an error text: the client's own string and the library's last-error slot.
Which of them a failing mutation reports depends on the calls before it. -/
namespace Such.RuntimeClient
open ByteText CivilTime SearchDialect DrivenMachine

/-- The calls that change roots and files. -/
inductive Mutation where
  | addRoot (root : Bytes)
  | removeRoot (root : Bytes)
  | replaceRoots (roots : List Bytes)
  | setPinned (path : Bytes) (pinned : Bool)
  | setIndexed (path : Bytes) (indexed : Bool)

inductive ClientCall where
  | load
  | search (now : Int) (dialect : PlatformDialect) (query : Bytes) (maxResults : Nat)
  | roots
  | status
  | mutate (mutation : Mutation)

section Calls
variable {σ W : Type} (library : Library σ) (look : W → Installation σ × W) (zone : Zone)

/-- The client's method for a mutation. -/
def Mutation.perform : Mutation → Client σ → W → Except Bytes Unit × Client σ × W
  | .addRoot root => Client.addRoot library look root
  | .removeRoot root => Client.removeRoot library look root
  | .replaceRoots roots => Client.replaceRoots library look roots
  | .setPinned path pinned => Client.setPinned library look path pinned
  | .setIndexed path indexed => Client.setIndexed library look path indexed

/-- The library's function behind it. -/
def Mutation.abi : Mutation → σ → Bool × σ
  | .addRoot root => library.addRoot (cstr root)
  | .removeRoot root => library.removeRoot (cstr root)
  | .replaceRoots roots => library.replaceRoots (roots.map cstr)
  | .setPinned path pinned => library.setPinned (cstr path) pinned
  | .setIndexed path indexed => library.setIndexed (cstr path) indexed

theorem Mutation.perform_eq (mutation : Mutation) : mutation.perform library look =
    Client.mutate library look (Loaded.mutate library (mutation.abi library)) := by
  cases mutation <;> rfl

/-- A client, the process around it, and whether the text of a failed search or listing is
still waiting in the client. -/
structure Session (σ W : Type) where
  client : Client σ
  world : W
  stale : Bool := false

/-- A search or a listing of the roots renews the client's text, also as part of a status. A
mutation that succeeds clears it; one that fails leaves it. -/
def ClientCall.leavesStale (call : ClientCall) (s : Session σ W) : Bool :=
  match s.client.runtime with
  | none => false
  | some runtime =>
    match call with
    | .load => s.stale
    | .search now dialect query maxResults =>
      !(searchLoaded zone dialect now (s.client.observed library) s.client.readOnly
        (library.view runtime) query maxResults).isOk
    | .roots => (library.listRoots runtime).1.isNone
    | .status => (library.listRoots runtime).1.isNone
    | .mutate mutation => s.stale && !(mutation.abi library runtime).1

def ClientCall.perform (call : ClientCall) (s : Session σ W) : Session σ W :=
  let stale := call.leavesStale library zone s
  match call with
  | .load =>
    let (_, client, world) := s.client.load library look s.world
    ⟨client, world, stale⟩
  | .search now dialect query maxResults =>
    ⟨(s.client.search library zone dialect now query maxResults).2, s.world, stale⟩
  | .roots => ⟨(s.client.roots library).2, s.world, stale⟩
  | .status => ⟨(s.client.status library).2, s.world, stale⟩
  | .mutate mutation =>
    let (_, client, world) := mutation.perform library look s.client s.world
    ⟨client, world, stale⟩

/-- What the library's slot says of a mutation made in state `runtime`. -/
def Mutation.message (mutation : Mutation) (runtime : σ) : Bytes :=
  cstr (library.view (mutation.abi library runtime).2).lastError

/-- A mutation that fails on a ready client reports the library's message for that very call. -/
def Attributed (s : Session σ W) (call : ClientCall) : Prop :=
  ∀ mutation, call = .mutate mutation → ∀ runtime, s.client.runtime = some runtime →
    (mutation.abi library runtime).1 = false →
      (mutation.perform library look s.client s.world).1 =
        .error (mutation.message library runtime)

/-- Before a mutation that fails on a ready client, no text of an earlier failure waits, or it
happens to be the very text of this one. -/
def NothingWaits (s : Session σ W) (call : ClientCall) : Prop :=
  ∀ mutation, call = .mutate mutation → ∀ runtime, s.client.runtime = some runtime →
    (mutation.abi library runtime).1 = false →
      s.stale = false ∨ s.client.error = mutation.message library runtime

theorem callError_ne_nil (abi : Bytes) {fallback : Bytes} (filled : fallback ≠ []) :
    callError abi fallback ≠ [] := by
  simp only [callError]
  split
  · exact filled
  · rename_i text
    simpa using text

/-- An error that carries a text. -/
def Loud {α : Type} (answer : Except Bytes α) : Prop := ∀ e, answer = .error e → e ≠ []

theorem loud_ok {α : Type} (value : α) : Loud (.ok value : Except Bytes α) := by
  intro e same
  cases same

theorem loud_error {α : Type} {e : Bytes} (filled : e ≠ []) : Loud (.error e : Except Bytes α) := by
  intro e' same
  cases same
  exact filled

section Loud
variable (dialect : PlatformDialect) (now : Int) (observed : List Bytes) (runtime : Runtime)

theorem searchFiles_loud (query : Bytes) (limit : Nat) :
    Loud (searchFiles zone dialect now observed runtime query limit) := by
  simp only [searchFiles]
  split
  · exact loud_error (callError_ne_nil _ (by decide))
  · exact loud_ok _

theorem requestContent_loud (content : ContentSearchRequest → Except Bytes (List AbiContentResult))
    (filter : SearchFilter) (candidates : Option (List UInt64)) (maxResults : Nat) :
    Loud (requestContent content filter candidates maxResults) := by
  simp only [requestContent]
  split
  · exact loud_error (callError_ne_nil _ (by decide))
  · exact loud_ok _

theorem searchContent_loud (readOnly : Bool) (filter : SearchFilter)
    (restriction : Option (List UInt64)) (maxResults : Nat) :
    Loud (searchContent zone dialect now observed readOnly runtime filter restriction maxResults) := by
  simp only [searchContent]
  split
  · exact loud_error (by decide)
  · split
    · exact loud_error (by decide)
    · split
      · exact loud_ok _
      · split
        · exact requestContent_loud _ _ _ _
        · split
          · split
            · rename_i e failed
              exact loud_error (searchFiles_loud zone dialect now observed runtime _ 0 e failed)
            · split
              · exact loud_ok _
              · exact requestContent_loud _ _ _ _
          · exact requestContent_loud _ _ _ _

/-- No failing search is silent. -/
theorem searchLoaded_loud (readOnly : Bool) (query : Bytes) (maxResults : Nat) :
    Loud (searchLoaded zone dialect now observed readOnly runtime query maxResults) := by
  have content := searchContent_loud zone dialect now observed runtime readOnly
  simp only [searchLoaded]
  split
  · split
    · exact loud_error (by decide)
    · split
      · split
        · rename_i e failed
          exact loud_error (searchFiles_loud zone dialect now observed runtime _ 0 e failed)
        · split
          · exact loud_ok _
          · exact content _ _ _
      · exact content _ _ _
  · split
    · exact content _ _ _
    · exact searchFiles_loud zone dialect now observed runtime query maxResults

end Loud

/-- The waiting text of a ready client is empty exactly if no failure is waiting. -/
def Tidy (s : Session σ W) : Prop :=
  ∀ runtime, s.client.runtime = some runtime → (s.stale = false ↔ s.client.error = [])

section Steps
variable {library look zone} {c : Client σ} {runtime : σ} (ready : c.runtime = some runtime)
include ready

theorem search_error (now : Int) (dialect : PlatformDialect) (query : Bytes) (maxResults : Nat) :
    (!(searchLoaded zone dialect now (c.observed library) c.readOnly (library.view runtime) query
        maxResults).isOk) = false ↔
      (c.search library zone dialect now query maxResults).2.error = [] := by
  have loud := searchLoaded_loud zone dialect now (c.observed library) (library.view runtime)
    c.readOnly query maxResults
  simp only [Client.observed] at loud ⊢
  simp only [Client.search, search, Client.impl, Client.available, ready, Option.isSome_some,
    Option.map_some] at loud ⊢
  split
  · rename_i e failed
    rw [failed]
    exact ⟨fun same => by simp [Except.isOk, Except.toBool] at same, fun same => absurd same (loud e failed)⟩
  · rename_i items found
    rw [found]
    exact ⟨fun _ => rfl, fun _ => rfl⟩

theorem roots_error : (library.listRoots runtime).1.isNone = false ↔
    (c.roots library).2.error = [] := by
  simp only [Client.roots, ready, Loaded.roots]
  cases listed : library.listRoots runtime with
  | mk values next =>
    cases values with
    | none =>
      have filled : callError (library.view next).lastError
          (lit "Such private runtime could not list search roots") ≠ [] :=
        callError_ne_nil _ (by decide)
      exact ⟨fun same => absurd same (by simp), fun same => absurd same filled⟩
    | some values => exact ⟨fun _ => rfl, fun _ => rfl⟩

theorem status_error : (c.status library).2.error = (c.roots library).2.error := by
  simp only [Client.status, Client.roots, ready, Loaded.status]
  cases Loaded.roots library ⟨c.error, runtime⟩ with
  | mk listed loaded =>
    dsimp only
    cases library.status loaded.runtime with
    | mk raw next => cases raw <;> cases listed <;> rfl

/-- A mutation on a ready client: the client's text is cleared or stays, and a failure reports
it before it looks at the library's. -/
theorem mutation_perform (mutation : Mutation) (w : W) :
    (mutation.perform library look c w).2.1.error =
        (if (mutation.abi library runtime).1 then [] else c.error) ∧
      ((mutation.abi library runtime).1 = false → (mutation.perform library look c w).1 =
        .error (if !c.error.isEmpty then c.error else mutation.message library runtime)) := by
  simp only [Mutation.perform_eq, Client.mutate, Client.ensureReady, ready, Loaded.mutate,
    Mutation.message]
  cases mutation.abi library runtime with
  | mk done next =>
    cases done with
    | true => exact ⟨rfl, fun same => absurd same (by simp)⟩
    | false => exact ⟨rfl, fun _ => rfl⟩

end Steps

/-- A client that was not ready has no waiting text once it is. -/
theorem fresh_error {c : Client σ} (unready : c.runtime = none) (w : W) {runtime : σ} :
    ((c.load library look w).2.1.runtime = some runtime → (c.load library look w).2.1.error = []) ∧
    ∀ mutation : Mutation, (mutation.perform library look c w).2.1.runtime = some runtime →
      (mutation.perform library look c w).2.1.error = [] := by
  have opened : ∀ loaded, (c.ensureReady library look w).1 = .ok loaded → loaded.error = [] := by
    intro loaded same
    simp only [Client.ensureReady, unready] at same
    split at same
    · contradiction
    · split at same
      · cases same
        rfl
      · contradiction
  have closed : ∀ failed, (c.ensureReady library look w).1 = .error failed → failed.runtime = none := by
    intro failed same
    simp only [Client.ensureReady, unready] at same
    split at same
    · cases same
      rfl
    · split at same
      · contradiction
      · cases same
        rfl
  cases ready : c.ensureReady library look w with
  | mk answer world =>
    rw [ready] at opened closed
    cases answer with
    | error failed =>
      have none := closed failed rfl
      constructor
      · simp only [Client.load, ready, none, reduceCtorEq, false_implies]
      · intro mutation
        simp only [Mutation.perform_eq, Client.mutate, ready, none, reduceCtorEq, false_implies]
    | ok loaded =>
      have empty := opened loaded rfl
      constructor
      · intro _
        simp only [Client.load, ready, Client.ofLoaded, empty]
      · intro mutation _
        simp only [Mutation.perform_eq, Client.mutate, ready, Loaded.mutate, Client.ofLoaded]
        cases mutation.abi library loaded.runtime with
        | mk done next =>
          cases done with
          | true => rfl
          | false => exact empty

theorem perform_tidy (call : ClientCall) {s : Session σ W} (tidy : Tidy s) :
    Tidy (call.perform library look zone s) := by
  intro runtime' ready'
  cases held : s.client.runtime with
  | none =>
    have stale : (call.leavesStale library zone s) = false := by simp only [ClientCall.leavesStale, held]
    have fresh := @fresh_error σ W library look s.client held s.world runtime'
    cases call with
    | load => exact ⟨fun _ => fresh.1 ready', fun _ => stale⟩
    | mutate mutation => exact ⟨fun _ => fresh.2 mutation ready', fun _ => stale⟩
    | search now dialect query maxResults =>
      simp only [ClientCall.perform, Client.search, held, reduceCtorEq] at ready'
    | roots => simp only [ClientCall.perform, Client.roots, held, reduceCtorEq] at ready'
    | status => simp only [ClientCall.perform, Client.status, held, reduceCtorEq] at ready'
  | some runtime =>
    have before := tidy runtime held
    cases call with
    | load =>
      simp only [ClientCall.perform, ClientCall.leavesStale, held, Client.load, Client.ensureReady,
        Client.ofLoaded]
      exact before
    | search now dialect query maxResults =>
      simp only [ClientCall.perform, ClientCall.leavesStale, held]
      exact search_error held now dialect query maxResults
    | roots =>
      simp only [ClientCall.perform, ClientCall.leavesStale, held]
      exact roots_error held
    | status =>
      simp only [ClientCall.perform, ClientCall.leavesStale, held, status_error held]
      exact roots_error held
    | mutate mutation =>
      simp only [ClientCall.perform, ClientCall.leavesStale, held, (mutation_perform held mutation _).1]
      cases (mutation.abi library runtime).1 with
      | true => simp only [Bool.not_true, Bool.and_false, if_true]
      | false => simpa only [Bool.not_false, Bool.and_true, Bool.false_eq_true, if_false] using before

/-- The waiting text decides: a failing mutation reports its own message exactly when nothing
else waits. -/
theorem attributed_iff (s : Session σ W) (call : ClientCall) (tidy : Tidy s) :
    Attributed library look s call ↔ NothingWaits library s call := by
  have reported : ∀ (mutation : Mutation) (runtime : σ), s.client.runtime = some runtime →
      (mutation.abi library runtime).1 = false →
      ((mutation.perform library look s.client s.world).1 = .error (mutation.message library runtime) ↔
        s.stale = false ∨ s.client.error = mutation.message library runtime) := by
    intro mutation runtime ready fails
    rw [(mutation_perform ready mutation s.world).2 fails, Except.error.injEq,
      tidy runtime ready]
    by_cases empty : s.client.error = []
    · simp [empty]
    · simp [empty]
  constructor
  · intro attributed mutation same runtime ready fails
    exact (reported mutation runtime ready fails).mp (attributed mutation same runtime ready fails)
  · intro nothing mutation same runtime ready fails
    exact (reported mutation runtime ready fails).mpr (nothing mutation same runtime ready fails)

/-- In a run from a client without a runtime, every mutation that fails on a ready client reports
the library's message for that very call exactly if, at each of them, no text of a failed search
or listing is left over: the client's own string is preferred to the library's slot, searches and
listings fill it, and only a search, a listing or a mutation that succeeds empties it again. -/
theorem mutation_errors_attributed_iff (readOnly : Bool) (world : W) (calls : List ClientCall) :
    Throughout (fun s call => some (ClientCall.perform library look zone call s))
        (Attributed library look) ⟨{ readOnly := readOnly }, world, false⟩ calls ↔
      Throughout (fun s call => some (ClientCall.perform library look zone call s))
        (NothingWaits library) ⟨{ readOnly := readOnly }, world, false⟩ calls := by
  refine throughout_congr (?_ : ∀ s call t, Tidy s → _ → Tidy t) ?_ ?_
  · intro s call t tidy step
    cases step
    exact perform_tidy library look zone call tidy
  · intro s call tidy
    exact attributed_iff library look s call tidy
  · intro runtime ready
    cases ready

end Calls

/-- A library whose state is its last-error slot: searches and changes all fail, each under its
own message. -/
def refusingLibrary : Library Bytes where
  view slot := {
    lastError := slot
    listExtensions := []
    search := fun _ _ _ => .error (lit "index is locked")
    searchContent := none }
  addRoot _ _ := (false, lit "no such folder")
  removeRoot _ _ := (false, lit "no such root")
  replaceRoots _ _ := (false, lit "no such folders")
  listRoots slot := (some [], slot)
  setIndexed _ _ _ := (false, lit "file is not listed")
  setPinned _ _ _ := (false, lit "file is not indexed")
  reindexAsync slot := slot
  status slot := (none, slot)
  generation _ := 0

def refusingInstallation : Installation Bytes where
  libraryPath := lit "SuchRuntime.dll"
  create _ := some []
  load slot := (true, slot)

/-- After a failed search, a failed pin is reported with the search's text. -/
theorem failed_pin_reports_search :
    ¬ Throughout (fun s call => some (ClientCall.perform refusingLibrary
          (fun w : Unit => (refusingInstallation, w)) .utc call s))
        (Attributed refusingLibrary fun w : Unit => (refusingInstallation, w)) ⟨{}, (), false⟩
        [.load, .search 1800000000 .windows (lit "a") 0, .mutate (.setPinned (lit "C:\\a") true)] := by
  rintro ⟨-, loaded⟩
  obtain ⟨-, searched⟩ := loaded _ rfl
  have attributed := (searched _ rfl).1 _ rfl [] (by decide +kernel) rfl
  have waiting : (ClientCall.search 1800000000 .windows (lit "a") 0).perform refusingLibrary
      (fun w : Unit => (refusingInstallation, w)) .utc
      (ClientCall.load.perform refusingLibrary (fun w => (refusingInstallation, w)) .utc
        ⟨{}, (), false⟩) = ⟨{ error := lit "index is locked", runtime := some [] }, (), true⟩ := by
    rfl
  rw [waiting] at attributed
  have texts : lit "index is locked" = lit "file is not indexed" := Except.error.inj attributed
  exact absurd texts (by decide +kernel)

end Such.RuntimeClient
