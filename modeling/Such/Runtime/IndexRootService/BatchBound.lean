import Mathlib.Data.Finset.Card
import Such.Runtime.IndexPathPolicy.InstallRoot
import Such.Runtime.IndexRootService.Termination

/-! How many paths one poll excludes. A record of the exclusions that the runtime accepts
rides along with its state, and each batch of a poll is bounded by itself. -/
namespace Such.IndexRootService
open ByteText LexicalPath IndexPathPolicy RuntimeClient SearchDialect CivilTime DrivenMachine

section Record
variable {σ : Type}

def alongside {α : Type} (f : σ → α × σ) (s : σ × List Bytes) : α × (σ × List Bytes) :=
  ((f s.1).1, ((f s.1).2, s.2))

/-- The library over states that hold the paths it agreed to exclude, in their order. -/
def recording (library : Library σ) : Library (σ × List Bytes) where
  view s := library.view s.1
  addRoot root := alongside (library.addRoot root)
  removeRoot root := alongside (library.removeRoot root)
  replaceRoots roots := alongside (library.replaceRoots roots)
  listRoots := alongside library.listRoots
  setIndexed path indexed s :=
    let (done, runtime) := library.setIndexed path indexed s.1
    (done, (runtime, if done && !indexed then s.2 ++ [path] else s.2))
  setPinned path pinned := alongside (library.setPinned path pinned)
  reindexAsync s := (library.reindexAsync s.1, s.2)
  status := alongside library.status
  generation s := library.generation s.1

/-- Every exclusion asked for is made. -/
def Accepts (library : Library σ) : Prop :=
  ∀ path s, (library.setIndexed path false s).1 = true

end Record

namespace Service
variable {σ : Type} (platform : Platform)

def withRecord (record : List Bytes) (s : Service σ) : Service (σ × List Bytes) where
  runtime := ⟨s.runtime.error, (s.runtime.runtime, record)⟩
  dialect := s.dialect
  maintenance := s.maintenance

/-- The paths that the poll of a tick excludes: its accepted calls, in their order. -/
def newlyExcluded (t : Tick σ) (s : Service σ) : List Bytes :=
  (({ s with runtime := t.between s.runtime }.withRecord []).scrubOneBatch platform
    (recording t.library) t.around).runtime.runtime.2

/-- The state in which a poll begins with its batches; `none` where it ends before. -/
def batchStart (library : Library σ) (s : Service σ) : Option (Service σ) :=
  if !s.maintenance.pending || !s.maintenance.enabled then none
  else
    let (status, s) := s.call (Loaded.status library)
    if status.indexing then none
    else if s.maintenance.fixedReady then some s
    else
      match s.prepareFixedMaintenance platform library with
      | (true, s) => some s
      | (false, _) => none

/-- A batch of fixed exclusions, and behind the last of them a batch for the noise term. -/
def runBatches (library : Library σ) (around : Surroundings) (s : Service σ) : Service σ :=
  let s := s.applyFixed library maintenanceMutationLimit
  if s.maintenance.fixedIndex < s.maintenance.fixedExclusions.length then s
  else s.scrubTerm platform library around

def fixedDue (s : Service σ) : Nat := s.maintenance.fixedExclusions.length - s.maintenance.fixedIndex

/-- The different prefixes of a list that are neither handled for the term nor spared for the
installed copy. -/
def freshPrefixes (term : Nat) (noisePaths : List Bytes) (s : Service σ) : Finset Bytes :=
  (noisePaths.filter fun noisePath => !((s.maintenance.seenPrefixes term).contains noisePath ||
    touchesInstallRoot platform noisePath)).toFinset

/-- The fresh prefixes that the rows of the term under way lead to. -/
def noiseDue (library : Library σ) (around : Surroundings) (s : Service σ) : Finset Bytes :=
  match noiseTerms[s.maintenance.noiseTermIndex]? with
  | none => ∅
  | some noiseName =>
    let outcome := (s.call (Loaded.search library around.zone s.dialect around.now noiseName 512)).1
    if !outcome.error.isEmpty then ∅
    else s.freshPrefixes platform s.maintenance.noiseTermIndex
      (noisePrefixes platform around noiseName outcome.items)

/-- The poll of a tick has one batch only, or two that make up no more than one. -/
def FitsOneBatch (t : Tick σ) (s : Service σ) : Prop :=
  ∀ u ∈ { s with runtime := t.between s.runtime }.batchStart platform t.library,
    u.fixedDue = 0 ∨ maintenanceMutationLimit < u.fixedDue ∨
      u.fixedDue + ((u.applyFixed t.library maintenanceMutationLimit).noiseDue platform t.library
        t.around).card ≤ maintenanceMutationLimit

section Steps
variable (library : Library σ) (around : Surroundings) (record : List Bytes) (s : Service σ)

/-- Of `due` exclusions no more are made, and all where the runtime accepts them. -/
structure Performs (made due : Nat) : Prop where
  bound : made ≤ due
  all : Accepts library → made = due

variable {library}

theorem Performs.refl (count : Nat) : Performs library count count := ⟨Nat.le_refl count, fun _ => rfl⟩

theorem Performs.refused {due : Nat} (refuses : ¬ Accepts library) : Performs library 0 due :=
  ⟨Nat.zero_le due, fun accepts => absurd accepts refuses⟩

theorem Performs.add {made due made' due' : Nat} (first : Performs library made due)
    (later : Performs library made' due') : Performs library (made + made') (due + due') :=
  ⟨Nat.add_le_add first.bound later.bound,
    fun accepts => by rw [first.all accepts, later.all accepts]⟩

variable (library)

theorem call_roots_record : (s.withRecord record).call (Loaded.roots (recording library)) =
    ((s.call (Loaded.roots library)).1, (s.call (Loaded.roots library)).2.withRecord record) := by
  have listed : (recording library).listRoots (s.runtime.runtime, record) =
      ((library.listRoots s.runtime.runtime).1, ((library.listRoots s.runtime.runtime).2, record)) :=
    rfl
  simp only [call, withRecord, Loaded.roots]
  rw [listed]
  cases library.listRoots s.runtime.runtime with
  | mk values runtime =>
    cases values with
    | none => rfl
    | some values => rfl

theorem call_status_record : (s.withRecord record).call (Loaded.status (recording library)) =
    ((s.call (Loaded.status library)).1, (s.call (Loaded.status library)).2.withRecord record) := by
  have asked : ∀ c : Loaded σ, (recording library).status (c.runtime, record) =
      ((library.status c.runtime).1, ((library.status c.runtime).2, record)) := fun _ => rfl
  have roots := call_roots_record library record s
  simp only [call, withRecord, Prod.mk.injEq, Service.mk.injEq, and_true] at roots
  simp only [call, withRecord, Loaded.status]
  rw [roots.1, roots.2]
  dsimp only
  rw [asked]
  cases library.status (s.runtime.roots library).2.runtime with
  | mk raw runtime =>
    cases raw with
    | none => rfl
    | some raw => rfl

theorem call_search_record (noiseName : Bytes) : (s.withRecord record).call (Loaded.search
      (recording library) around.zone s.dialect around.now noiseName 512) =
    ((s.call (Loaded.search library around.zone s.dialect around.now noiseName 512)).1,
      (s.call (Loaded.search library around.zone s.dialect around.now noiseName 512)).2.withRecord
        record) := rfl

/-- An exclusion is recorded exactly if it is made. -/
theorem call_setIndexed_record (path : Bytes) : ∃ made,
    (s.withRecord record).call (Loaded.setIndexed (recording library) path false) =
      ((s.call (Loaded.setIndexed library path false)).1,
        (s.call (Loaded.setIndexed library path false)).2.withRecord (record ++ made)) ∧
    ((s.call (Loaded.setIndexed library path false)).1 = .ok () ∧ made.length = 1 ∨
      (∃ e, (s.call (Loaded.setIndexed library path false)).1 = .error e) ∧ made.length = 0 ∧
        ¬ Accepts library) := by
  have asked : (recording library).setIndexed (cstr path) false (s.runtime.runtime, record) =
      ((library.setIndexed (cstr path) false s.runtime.runtime).1,
        ((library.setIndexed (cstr path) false s.runtime.runtime).2,
          if (library.setIndexed (cstr path) false s.runtime.runtime).1 && !false then
            record ++ [cstr path] else record)) := rfl
  simp only [call, withRecord, Loaded.setIndexed, Loaded.mutate]
  rw [asked]
  cases accepted : library.setIndexed (cstr path) false s.runtime.runtime with
  | mk done runtime =>
    cases done with
    | true => exact ⟨[cstr path], rfl, .inl ⟨rfl, rfl⟩⟩
    | false =>
      refine ⟨[], ?_, .inr ⟨⟨_, rfl⟩, rfl, ?_⟩⟩
      · rw [List.append_nil]
        rfl
      · intro accepts
        have made := accepts (cstr path) s.runtime.runtime
        rw [accepted] at made
        contradiction

/-- The fixed batch makes no more exclusions than are due, and all of them where the runtime
accepts them. -/
theorem applyFixed_record (budget : Nat) : ∃ made,
    (s.withRecord record).applyFixed (recording library) budget =
      (s.applyFixed library budget).withRecord (record ++ made) ∧
    Performs library made.length (min budget s.fixedDue) := by
  induction budget generalizing record s with
  | zero =>
    refine ⟨[], by rw [List.append_nil]; rfl, ?_⟩
    rw [Nat.zero_min]
    exact .refl 0
  | succ budget ih =>
    have cursor : (s.withRecord record).maintenance = s.maintenance := rfl
    simp only [applyFixed]
    rw [cursor]
    cases next : s.maintenance.fixedExclusions[s.maintenance.fixedIndex]? with
    | none =>
      have behind : s.fixedDue = 0 := Nat.sub_eq_zero_of_le (List.getElem?_eq_none_iff.mp next)
      refine ⟨[], by rw [List.append_nil], ?_⟩
      rw [behind, Nat.min_zero]
      exact .refl 0
    | some excluded =>
      have inside := (List.getElem?_eq_some_iff.mp next).1
      dsimp only
      let u : Service σ := { s with maintenance := { s.maintenance with
        fixedIndex := s.maintenance.fixedIndex + 1 } }
      obtain ⟨first, called, outcome⟩ := call_setIndexed_record library record u excluded
      obtain ⟨later, rest, performs⟩ := ih (record ++ first)
        (u.call (Loaded.setIndexed library excluded false)).2
      have due : min (budget + 1) s.fixedDue =
          1 + min budget (u.call (Loaded.setIndexed library excluded false)).2.fixedDue := by
        change min (budget + 1) (s.maintenance.fixedExclusions.length - s.maintenance.fixedIndex) =
          1 + min budget (s.maintenance.fixedExclusions.length - (s.maintenance.fixedIndex + 1))
        omega
      have head : Performs library first.length 1 := by
        rcases outcome with ⟨-, one⟩ | ⟨-, none, refuses⟩
        · rw [one]
          exact .refl 1
        · rw [none]
          exact .refused refuses
      refine ⟨first ++ later, ?_, ?_⟩
      · change applyFixed _ budget ((u.withRecord record).call _).2 = _
        rw [called, rest, List.append_assoc]
      · rw [List.length_append, due]
        exact head.add performs

/-- The count of a noise batch is what it records. -/
theorem applyPrefixes_record (term applied : Nat) (noisePaths : List Bytes) : ∃ made,
    (s.withRecord record).applyPrefixes platform (recording library) term applied noisePaths =
      ((s.applyPrefixes platform library term applied noisePaths).1,
        (s.applyPrefixes platform library term applied noisePaths).2.withRecord (record ++ made)) ∧
    (s.applyPrefixes platform library term applied noisePaths).1 = applied + made.length := by
  induction noisePaths generalizing applied record s with
  | nil => exact ⟨[], by rw [List.append_nil]; rfl, rfl⟩
  | cons noisePath rest ih =>
    have held : (s.withRecord record).maintenance = s.maintenance := rfl
    simp only [applyPrefixes]
    rw [held]
    split
    · exact ih record s applied
    · obtain ⟨first, called, outcome⟩ := call_setIndexed_record library record s noisePath
      rw [called]
      generalize s.call (Loaded.setIndexed library noisePath false) = result at outcome ⊢
      obtain ⟨result, t⟩ := result
      dsimp only at outcome ⊢
      rcases outcome with ⟨rfl, one⟩ | ⟨⟨e, rfl⟩, none, -⟩
      · dsimp only
        have noted : (t.withRecord (record ++ first)).maintenance = t.maintenance := rfl
        rw [noted]
        split
        · exact ⟨first, rfl, by rw [one]⟩
        · obtain ⟨later, rest, count⟩ := ih (record ++ first)
            { t with maintenance := t.maintenance.addSeen term [noisePath] } (applied + 1)
          refine ⟨first ++ later, ?_, ?_⟩
          · rw [← List.append_assoc]
            exact rest
          · rw [List.length_append, one, ← Nat.add_assoc]
            exact count
      · obtain ⟨later, rest, count⟩ := ih (record ++ first) t applied
        refine ⟨first ++ later, ?_, ?_⟩
        · rw [← List.append_assoc]
          exact rest
        · rw [List.length_append, none, Nat.zero_add]
          exact count

theorem freshPrefixes_cons_of_settled {term : Nat} {noisePath : Bytes} (rest : List Bytes)
    {s : Service σ} (settled : (s.maintenance.seenPrefixes term).contains noisePath = true ∨
      touchesInstallRoot platform noisePath = true) :
    s.freshPrefixes platform term (noisePath :: rest) = s.freshPrefixes platform term rest := by
  simp only [freshPrefixes]
  rw [List.filter_cons_of_neg]
  rw [Bool.or_eq_true_iff.mpr settled]
  exact Bool.false_ne_true

theorem freshPrefixes_cons {term : Nat} {noisePath : Bytes} (rest : List Bytes) {s : Service σ}
    (fresh : ((s.maintenance.seenPrefixes term).contains noisePath ||
      touchesInstallRoot platform noisePath) = false) :
    s.freshPrefixes platform term (noisePath :: rest) =
      insert noisePath (s.freshPrefixes platform term rest) := by
  simp only [freshPrefixes]
  rw [List.filter_cons_of_pos (by rw [fresh]; rfl), List.toFinset_cons]

/-- A handled prefix is no longer fresh; the others are as fresh as before. -/
theorem freshPrefixes_addSeen (term : Nat) (noisePath : Bytes) (noisePaths : List Bytes)
    {s t : Service σ} (held : t.maintenance = s.maintenance.addSeen term [noisePath]) :
    t.freshPrefixes platform term noisePaths =
      (s.freshPrefixes platform term noisePaths).erase noisePath := by
  ext path
  simp only [freshPrefixes, held, Maintenance.seen_addSeen]
  simp only [List.contains_eq_mem, List.mem_toFinset, List.mem_filter, Finset.mem_erase,
    List.mem_append, List.mem_singleton, Bool.not_eq_true', Bool.or_eq_false_iff,
    decide_eq_false_iff_not]
  tauto

theorem applyPrefixes_count (term : Nat) {applied : Nat} (room : applied < maintenanceMutationLimit)
    (noisePaths : List Bytes) (s : Service σ) :
    Performs library (s.applyPrefixes platform library term applied noisePaths).1
      (min maintenanceMutationLimit (applied + (s.freshPrefixes platform term noisePaths).card)) := by
  induction noisePaths generalizing applied s with
  | nil =>
    have none : (s.freshPrefixes platform term []).card = 0 := rfl
    rw [none, Nat.add_zero, Nat.min_eq_right (Nat.le_of_lt room)]
    exact .refl applied
  | cons noisePath rest ih =>
    simp only [applyPrefixes]
    split
    · rename_i settled
      rw [freshPrefixes_cons_of_settled platform rest (Bool.or_eq_true_iff.mp settled)]
      exact ih room s
    · rename_i fresh
      rw [Bool.not_eq_true] at fresh
      rw [freshPrefixes_cons platform rest fresh]
      obtain ⟨_, -, outcome⟩ := call_setIndexed_record library [] s noisePath
      have held : (s.call (Loaded.setIndexed library noisePath false)).2.maintenance =
          s.maintenance := rfl
      generalize s.call (Loaded.setIndexed library noisePath false) = result at outcome held ⊢
      obtain ⟨result, t⟩ := result
      dsimp only at outcome held ⊢
      have card : (insert noisePath (s.freshPrefixes platform term rest)).card =
          ((s.freshPrefixes platform term rest).erase noisePath).card + 1 := by
        rw [← Finset.erase_insert_eq_erase]
        exact (Finset.card_erase_add_one (Finset.mem_insert_self _ _)).symm
      rcases outcome with ⟨rfl, -⟩ | ⟨⟨e, rfl⟩, -, refuses⟩
      · dsimp only
        split
        · constructor
          · omega
          · intro _
            omega
        · rename_i open_
          have later := ih (Nat.lt_of_not_le open_)
            { t with maintenance := t.maintenance.addSeen term [noisePath] }
          rw [freshPrefixes_addSeen platform term noisePath rest (s := s) (by rw [held])] at later
          have shift : ∀ n, applied + (n + 1) = applied + 1 + n := fun n => by omega
          rw [card, shift (Finset.card _)]
          exact later
      · obtain ⟨bound, -⟩ := ih room t
        have same : t.freshPrefixes platform term rest = s.freshPrefixes platform term rest := by
          simp only [freshPrefixes, held]
        have fewer := Finset.card_le_card (Finset.subset_insert noisePath
          (s.freshPrefixes platform term rest))
        rw [same] at bound
        refine ⟨?_, fun accepts => absurd accepts refuses⟩
        dsimp only
        omega

/-- A noise batch makes no more exclusions than are due, and no more than one poll may. -/
theorem scrubTerm_record : ∃ made,
    (s.withRecord record).scrubTerm platform (recording library) around =
      (s.scrubTerm platform library around).withRecord (record ++ made) ∧
    Performs library made.length
      (min maintenanceMutationLimit (s.noiseDue platform library around).card) := by
  have nothing : ∀ t : Service σ, t.withRecord record = t.withRecord (record ++ []) := by
    intro t
    rw [List.append_nil]
  have held : (s.withRecord record).maintenance = s.maintenance := rfl
  have dialect : (s.withRecord record).dialect = s.dialect := rfl
  simp only [scrubTerm, noiseDue]
  rw [held]
  cases named : noiseTerms[s.maintenance.noiseTermIndex]? with
  | none => exact ⟨[], nothing (s.setPending false), .refl 0⟩
  | some noiseName =>
    dsimp only
    rw [dialect, call_search_record]
    have kept : (s.call (Loaded.search library around.zone s.dialect around.now noiseName
        512)).2.maintenance = s.maintenance := rfl
    generalize s.call (Loaded.search library around.zone s.dialect around.now noiseName 512) = called
      at kept ⊢
    obtain ⟨outcome, t⟩ := called
    dsimp only at kept ⊢
    by_cases failed : (!outcome.error.isEmpty) = true
    · rw [if_pos failed, if_pos failed, if_pos failed]
      exact ⟨[], nothing (t.setPending false), .refl 0⟩
    · rw [if_neg failed, if_neg failed, if_neg failed]
      obtain ⟨made, run, count⟩ := applyPrefixes_record platform library record t
        t.maintenance.noiseTermIndex 0 (noisePrefixes platform around noiseName outcome.items)
      have room : 0 < maintenanceMutationLimit := by decide
      have bounds := applyPrefixes_count platform library t.maintenance.noiseTermIndex room
        (noisePrefixes platform around noiseName outcome.items) t
      have same : ∀ noisePaths, t.freshPrefixes platform t.maintenance.noiseTermIndex noisePaths =
          s.freshPrefixes platform s.maintenance.noiseTermIndex noisePaths := by
        intro noisePaths
        simp only [freshPrefixes, kept]
      rw [count, Nat.zero_add, Nat.zero_add, same] at bounds
      refine ⟨made, ?_, bounds⟩
      simp only [excludeRows]
      have heldT : (t.withRecord record).maintenance = t.maintenance := rfl
      rw [heldT, run]
      rfl

/-- How many exclusions the batches of a poll come to where the runtime accepts them. -/
def batchSize (library : Library σ) (around : Surroundings) (s : Service σ) : Nat :=
  min maintenanceMutationLimit s.fixedDue +
    if maintenanceMutationLimit < s.fixedDue then 0
    else min maintenanceMutationLimit
      ((s.applyFixed library maintenanceMutationLimit).noiseDue platform library around).card

theorem runBatches_record : ∃ made,
    (s.withRecord record).runBatches platform (recording library) around =
      (s.runBatches platform library around).withRecord (record ++ made) ∧
    Performs library made.length (s.batchSize platform library around) := by
  obtain ⟨first, fixed, fixedDone⟩ := applyFixed_record library record s maintenanceMutationLimit
  have moved := applyFixed_maintenance library maintenanceMutationLimit s
  have open_ : (s.applyFixed library maintenanceMutationLimit).maintenance.fixedIndex <
      (s.applyFixed library maintenanceMutationLimit).maintenance.fixedExclusions.length ↔
        maintenanceMutationLimit < s.fixedDue := by
    rw [moved]
    simp only [fixedDue]
    omega
  simp only [runBatches, batchSize]
  rw [fixed]
  change ∃ made, (if (s.applyFixed library maintenanceMutationLimit).maintenance.fixedIndex <
    (s.applyFixed library maintenanceMutationLimit).maintenance.fixedExclusions.length then _
      else _) = _ ∧ _
  by_cases more : maintenanceMutationLimit < s.fixedDue
  · rw [if_pos (open_.mpr more), if_pos (open_.mpr more), if_pos more]
    exact ⟨first, rfl, fixedDone⟩
  · rw [if_neg (mt open_.mp more), if_neg (mt open_.mp more), if_neg more]
    obtain ⟨later, noise, noiseDone⟩ := scrubTerm_record platform library around
      (record ++ first) (s.applyFixed library maintenanceMutationLimit)
    refine ⟨first ++ later, ?_, ?_⟩
    · rw [noise, List.append_assoc]
    · rw [List.length_append]
      exact fixedDone.add noiseDone

theorem prepareFixedMaintenance_record :
    (s.withRecord record).prepareFixedMaintenance platform (recording library) =
      ((s.prepareFixedMaintenance platform library).1,
        (s.prepareFixedMaintenance platform library).2.withRecord record) := by
  simp only [prepareFixedMaintenance]
  rw [call_roots_record]
  cases s.call (Loaded.roots library) with
  | mk listed t =>
    cases listed with
    | error e => rfl
    | ok values =>
      dsimp only
      cases prepareRootSet platform (resolvePersistedRoots platform values) with
      | error e => rfl
      | ok prepared => rfl

theorem scrubIdle_of_ready {s : Service σ} (ready : s.maintenance.fixedReady = true) :
    s.scrubIdle platform library around = s.runBatches platform library around := by
  simp only [scrubIdle, scrubFixed, ready]
  rfl

theorem scrubIdle_of_unready {s u : Service σ} {planned : Bool}
    (unready : ¬ s.maintenance.fixedReady = true)
    (prepared : s.prepareFixedMaintenance platform library = (planned, u)) :
    s.scrubIdle platform library around =
      if planned then u.runBatches platform library around else u.setPending false := by
  rw [Bool.not_eq_true] at unready
  simp only [scrubIdle, scrubFixed, unready, prepared]
  cases planned with
  | false => rfl
  | true => rfl

/-- A poll records what its batches exclude, and nothing where it ends before them. -/
theorem scrubOneBatch_record :
    match s.batchStart platform library with
    | none => ((s.withRecord record).scrubOneBatch platform (recording library)
        around).runtime.runtime.2 = record
    | some u => (s.withRecord record).scrubOneBatch platform (recording library) around =
        (u.withRecord record).runBatches platform (recording library) around := by
  have held : (s.withRecord record).maintenance = s.maintenance := rfl
  simp only [batchStart, scrubOneBatch]
  rw [held]
  by_cases skipped : (!s.maintenance.pending || !s.maintenance.enabled) = true
  · rw [if_pos skipped, if_pos skipped]
    rfl
  · rw [if_neg skipped, if_neg skipped, call_status_record]
    generalize s.call (Loaded.status library) = called
    obtain ⟨status, t⟩ := called
    dsimp only
    by_cases busy : status.indexing = true
    · rw [if_pos busy, if_pos busy]
      rfl
    · rw [if_neg busy, if_neg busy]
      have ready : (t.withRecord record).maintenance.fixedReady = t.maintenance.fixedReady := rfl
      by_cases planned : t.maintenance.fixedReady = true
      · rw [if_pos planned]
        exact scrubIdle_of_ready platform (recording library) around (ready.trans planned)
      · rw [if_neg planned]
        have prepared := prepareFixedMaintenance_record platform library record t
        generalize t.prepareFixedMaintenance platform library = result at prepared ⊢
        obtain ⟨planned', u⟩ := result
        have idle := scrubIdle_of_unready platform (recording library) around (ready ▸ planned) prepared
        cases planned' with
        | false => exact congrArg (fun v : Service (σ × List Bytes) => v.runtime.runtime.2) idle
        | true => exact idle

end Steps

section Runs
variable {platform} {t : Tick σ} {s : Service σ}

theorem fitsOneBatch_iff : s.FitsOneBatch platform t ↔
    ∀ u ∈ { s with runtime := t.between s.runtime }.batchStart platform t.library,
      u.batchSize platform t.library t.around ≤ maintenanceMutationLimit := by
  apply forall_congr'
  intro u
  apply imp_congr_right
  intro _
  simp only [batchSize]
  split
  · omega
  · omega

theorem newlyExcluded_length (s : Service σ) :
    (s.FitsOneBatch platform t → (s.newlyExcluded platform t).length ≤ maintenanceMutationLimit) ∧
      (Accepts t.library → (s.newlyExcluded platform t).length ≤ maintenanceMutationLimit →
        s.FitsOneBatch platform t) := by
  have recorded := scrubOneBatch_record platform t.library t.around []
    { s with runtime := t.between s.runtime }
  rw [fitsOneBatch_iff]
  simp only [newlyExcluded]
  cases start : { s with runtime := t.between s.runtime }.batchStart platform t.library with
  | none =>
    rw [start] at recorded
    dsimp only at recorded
    rw [recorded]
    constructor
    · intro _
      exact Nat.zero_le _
    · intro _ _ u member
      cases member
  | some u =>
    rw [start] at recorded
    dsimp only at recorded
    obtain ⟨made, run, performs⟩ := runBatches_record platform t.library t.around [] u
    have same : made = (({ s with runtime := t.between s.runtime }.withRecord []).scrubOneBatch platform
        (recording t.library) t.around).runtime.runtime.2 := by
      rw [recorded, run]
      rfl
    rw [← same]
    constructor
    · intro fits
      exact performs.bound.trans (fits u rfl)
    · intro accepts few v member
      rw [← Option.some.inj member, ← performs.all accepts]
      exact few

end Runs
end Service

/-- From any state on, every poll excludes at most as many paths as one batch may hold if no poll
brings the fixed exclusions to their end and goes on to more fresh prefixes than the batch has room
for. Where the runtime makes every exclusion asked for, these are the only such runs. -/
theorem polls_exclude_one_batch {σ : Type} (platform : Platform) (start : Service σ)
    (ticks : List (Tick σ)) :
    (Throughout (Service.polls platform) (fun s t => s.FitsOneBatch platform t) start ticks →
      Throughout (Service.polls platform)
        (fun s t => (s.newlyExcluded platform t).length ≤ 16) start ticks) ∧
    ((∀ t ∈ ticks, Accepts t.library) →
      Throughout (Service.polls platform)
        (fun s t => (s.newlyExcluded platform t).length ≤ 16) start ticks →
      Throughout (Service.polls platform) (fun s t => s.FitsOneBatch platform t) start ticks) := by
  constructor
  · apply Throughout.imp
    intro s t _ fits
    exact (Service.newlyExcluded_length s).1 fits
  · intro accept
    apply Throughout.imp
    intro s t member few
    exact (Service.newlyExcluded_length s).2 (accept t member) few

/-- Here nothing is planned, and one prefix is fresh at the first poll only. -/
theorem stale_row_excluded_within_one_batch : Throughout (Service.polls (.posix some))
    (fun s t => (s.newlyExcluded (.posix some) t).length ≤ 16)
    ({ runtime := ⟨[], ()⟩, dialect := .unixLike } : Service Unit).requestMaintenance
    [staleTick, staleTick] := by
  apply (polls_exclude_one_batch (.posix some) _ [staleTick, staleTick]).1
  simp only [Service.throughout_polls_cons, Service.FitsOneBatch]
  refine ⟨by decide +kernel, by decide +kernel, trivial⟩

/-- The system drive is searched, and four directories on it hold installed modules. -/
def fourModuleTrees : Library Unit where
  view _ := {
    lastError := []
    listExtensions := []
    search := fun _ _ _ => .ok (["a", "b", "c", "d"].map fun project =>
      ⟨1, some (lit "index.js"), some (lit ("C:\\" ++ project ++ "\\node_modules\\index.js")), none,
        0, 1, 1, 0, 0⟩)
    searchContent := none }
  addRoot _ s := (true, s)
  removeRoot _ s := (true, s)
  replaceRoots _ s := (true, s)
  listRoots s := (some [lit "C:\\"], s)
  setIndexed _ _ s := (true, s)
  setPinned _ _ s := (true, s)
  reindexAsync s := s
  status s := (some {}, s)
  generation _ := 0

def moduleTick : Tick Unit where
  library := fourModuleTrees
  between := id
  around := ⟨Zone.utc, 1700000000, id⟩
  iterate_subset := List.Subset.refl

def driveService : Service Unit where
  runtime := ⟨[], ()⟩
  dialect := .windows

/-- The first poll after a root change excludes the thirteen system folders of the drive and four
prefixes more. -/
theorem first_poll_excludes_seventeen :
    (driveService.requestMaintenance.newlyExcluded (.windows filesHost) moduleTick).length = 17 ∧
      ¬ Throughout (Service.polls (.windows filesHost))
        (fun s t => (s.newlyExcluded (.windows filesHost) t).length ≤ 16)
        driveService.requestMaintenance [moduleTick] := by
  have count : (driveService.requestMaintenance.newlyExcluded (.windows filesHost)
      moduleTick).length = 17 := by decide +kernel
  refine ⟨count, ?_⟩
  intro few
  have first := few.1
  omega

end Such.IndexRootService
