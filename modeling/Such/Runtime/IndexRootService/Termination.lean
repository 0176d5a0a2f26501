import Mathlib.Data.List.Dedup
import Mathlib.Data.List.Nodup
import Mathlib.Data.List.Perm.Subperm
import Such.Base.DrivenMachine
import Such.Runtime.IndexPathPolicy.NoisePrefix
import Such.Runtime.IndexRootService

/-! How many polls policy maintenance takes. The runtime may answer each poll as it likes:
what is used up are the fixed exclusions, the noise prefixes it has to report and the
noise terms. -/
namespace Such.IndexRootService
open ByteText LexicalPath IndexPathPolicy RuntimeClient SearchDialect CivilTime DrivenMachine

/-- One poll with the runtime of that moment: its functions, what became of the client
since the poll before, and the order in which a set is iterated. -/
structure Tick (σ : Type) where
  library : Library σ
  between : Loaded σ → Loaded σ
  around : Service.Surroundings
  iterate_subset : ∀ texts, around.iterate texts ⊆ texts

namespace Maintenance

/-- Polls that the given number of fixed exclusions take. -/
def batches (exclusions : Nat) : Nat :=
  (exclusions + (Service.maintenanceMutationLimit - 1)) / Service.maintenanceMutationLimit

/-- The prefixes excluded for each of the three terms. -/
def handled (m : Maintenance) : List Bytes :=
  m.seenPrefixes 0 ++ m.seenPrefixes 1 ++ m.seenPrefixes 2

/-- Batches of fixed exclusions left, when `F` are planned for at most. -/
def fixedLeft (F : Nat) (m : Maintenance) : Nat :=
  if m.fixedReady then batches (m.fixedExclusions.length - m.fixedIndex) else batches F

def potential (F : Nat) (known : List Bytes) (m : Maintenance) : Nat :=
  m.fixedLeft F + (known.length - m.handled.length) +
    (Service.noiseTerms.length - m.noiseTermIndex)

/-- Every excluded prefix was reported, under the term it is named by, and once. -/
structure Accounted (known : List Bytes) (m : Maintenance) : Prop where
  enabled : m.pending = true → m.enabled = true
  index : m.pending = true → m.noiseTermIndex < Service.noiseTerms.length
  nodup : ∀ k, (m.seenPrefixes k).Nodup
  known : ∀ k, m.seenPrefixes k ⊆ known
  named : ∀ k term, Service.noiseTerms[k]? = some term →
    ∀ noisePath ∈ m.seenPrefixes k, lower (lastPart noisePath) = term

variable {known : List Bytes} {m : Maintenance}

theorem disjoint_seen (accounted : m.Accounted known) {i j : Nat} {a b : Bytes}
    (first : Service.noiseTerms[i]? = some a) (second : Service.noiseTerms[j]? = some b)
    (differ : a ≠ b) : List.Disjoint (m.seenPrefixes i) (m.seenPrefixes j) := by
  intro noisePath left right
  apply differ
  rw [← accounted.named i a first noisePath left, ← accounted.named j b second noisePath right]

theorem nodup_handled (accounted : m.Accounted known) : m.handled.Nodup := by
  simp only [handled]
  rw [List.nodup_append', List.nodup_append']
  refine ⟨⟨accounted.nodup 0, accounted.nodup 1, ?_⟩, accounted.nodup 2, ?_⟩
  · exact disjoint_seen accounted rfl rfl (by decide)
  · rw [List.disjoint_append_left]
    constructor
    · exact disjoint_seen accounted rfl rfl (by decide)
    · exact disjoint_seen accounted rfl rfl (by decide)

/-- No more is handled than there is to report. -/
theorem length_handled_le (accounted : m.Accounted known) : m.handled.length ≤ known.length := by
  apply ((nodup_handled accounted).subperm ?_).length_le
  intro noisePath member
  rcases List.mem_append.mp member with early | third
  · rcases List.mem_append.mp early with first | second
    · exact accounted.known 0 first
    · exact accounted.known 1 second
  · exact accounted.known 2 third

/-- Further prefixes are handled for a term. -/
def addSeen (term : Nat) (fresh : List Bytes) (m : Maintenance) : Maintenance :=
  { m with seenPrefixes := Function.update m.seenPrefixes term (m.seenPrefixes term ++ fresh) }

theorem addSeen_nil (term : Nat) (m : Maintenance) : m.addSeen term [] = m := by
  simp only [addSeen]
  rw [List.append_nil, Function.update_eq_self]

theorem seen_addSeen (term : Nat) (fresh : List Bytes) (m : Maintenance) :
    (m.addSeen term fresh).seenPrefixes term = m.seenPrefixes term ++ fresh :=
  Function.update_self term _ _

theorem seen_addSeen_of_ne {term other : Nat} (differ : other ≠ term) (fresh : List Bytes)
    (m : Maintenance) : (m.addSeen term fresh).seenPrefixes other = m.seenPrefixes other :=
  Function.update_of_ne differ _ _

theorem addSeen_addSeen (term : Nat) (fresh more : List Bytes) (m : Maintenance) :
    (m.addSeen term fresh).addSeen term more = m.addSeen term (fresh ++ more) := by
  simp only [addSeen]
  simp only [Function.update_self, Function.update_idem, List.append_assoc]

theorem length_handled_addSeen {term : Nat} (inside : term < Service.noiseTerms.length)
    (fresh : List Bytes) (m : Maintenance) :
    (m.addSeen term fresh).handled.length = m.handled.length + fresh.length := by
  simp only [handled, addSeen]
  have cases : term = 0 ∨ term = 1 ∨ term = 2 := by
    change term < 3 at inside
    omega
  rcases cases with rfl | rfl | rfl
  · simp [Function.update]
    omega
  · simp [Function.update]
    omega
  · simp [Function.update]
    omega

end Maintenance

namespace Service
variable {σ : Type} (platform : Platform)

section Parts
variable (library : Library σ)

/-- A batch only moves the cursor over the fixed exclusions. -/
theorem applyFixed_maintenance (budget : Nat) (s : Service σ) :
    (s.applyFixed library budget).maintenance = { s.maintenance with
      fixedIndex := max s.maintenance.fixedIndex
        (min (s.maintenance.fixedIndex + budget) s.maintenance.fixedExclusions.length) } := by
  induction budget generalizing s with
  | zero =>
    simp only [applyFixed]
    rw [Nat.add_zero, Nat.max_eq_left (Nat.min_le_left _ _)]
  | succ budget ih =>
    simp only [applyFixed]
    cases next : s.maintenance.fixedExclusions[s.maintenance.fixedIndex]? with
    | none =>
      have behind := List.getElem?_eq_none_iff.mp next
      have stay : max s.maintenance.fixedIndex
          (min (s.maintenance.fixedIndex + (budget + 1)) s.maintenance.fixedExclusions.length) =
          s.maintenance.fixedIndex := by omega
      rw [stay]
    | some excluded =>
      have inside := (List.getElem?_eq_some_iff.mp next).1
      dsimp only
      rw [ih]
      change { s.maintenance with
        fixedIndex := max (s.maintenance.fixedIndex + 1)
          (min (s.maintenance.fixedIndex + 1 + budget) s.maintenance.fixedExclusions.length) } = _
      have further : max (s.maintenance.fixedIndex + 1)
          (min (s.maintenance.fixedIndex + 1 + budget) s.maintenance.fixedExclusions.length) =
          max s.maintenance.fixedIndex
            (min (s.maintenance.fixedIndex + (budget + 1)) s.maintenance.fixedExclusions.length) := by
        omega
      rw [further]

/-- The prefixes a poll excludes are fresh and among those it was given. -/
theorem applyPrefixes_maintenance (term applied : Nat) (noisePaths : List Bytes) (s : Service σ) :
    ∃ fresh, (s.applyPrefixes platform library term applied noisePaths).2.maintenance =
        s.maintenance.addSeen term fresh ∧
      (s.applyPrefixes platform library term applied noisePaths).1 = applied + fresh.length ∧
      fresh.Nodup ∧ fresh ⊆ noisePaths ∧
      List.Disjoint (s.maintenance.seenPrefixes term) fresh := by
  have nothing : ∀ s : Service σ, s.maintenance = s.maintenance.addSeen term [] :=
    fun s => (Maintenance.addSeen_nil term s.maintenance).symm
  induction noisePaths generalizing applied s with
  | nil => exact ⟨[], nothing s, rfl, List.nodup_nil, List.Subset.refl _, List.disjoint_nil_right _⟩
  | cons noisePath rest ih =>
    simp only [applyPrefixes]
    split
    · obtain ⟨fresh, held, count, nodup, inside, new⟩ := ih applied s
      exact ⟨fresh, held, count, nodup, List.subset_cons_of_subset noisePath inside, new⟩
    · rename_i fits
      rw [Bool.not_eq_true, Bool.or_eq_false_iff] at fits
      have unseen : noisePath ∉ s.maintenance.seenPrefixes term := by
        rw [← List.contains_iff_mem, fits.1]
        exact Bool.false_ne_true
      have kept : (s.call (Loaded.setIndexed library noisePath false)).2.maintenance = s.maintenance :=
        rfl
      revert kept
      generalize s.call (Loaded.setIndexed library noisePath false) = called
      obtain ⟨result, t⟩ := called
      intro kept
      dsimp only at kept ⊢
      cases result with
      | error e =>
        obtain ⟨fresh, held, count, nodup, inside, new⟩ := ih applied t
        rw [kept] at held new
        exact ⟨fresh, held, count, nodup, List.subset_cons_of_subset noisePath inside, new⟩
      | ok u =>
        dsimp only
        split
        · refine ⟨[noisePath], ?_, rfl, List.nodup_singleton _, ?_, ?_⟩
          · rw [← kept]
            rfl
          · exact List.cons_subset_cons noisePath (List.nil_subset rest)
          · exact List.disjoint_singleton.mpr unseen
        · obtain ⟨fresh, held, count, nodup, inside, new⟩ := ih (applied + 1)
            { t with maintenance := t.maintenance.addSeen term [noisePath] }
          rw [Maintenance.seen_addSeen, kept, List.disjoint_append_left] at new
          have joined : (t.maintenance.addSeen term [noisePath]).addSeen term fresh =
              s.maintenance.addSeen term (noisePath :: fresh) := by
            rw [Maintenance.addSeen_addSeen, kept]
            rfl
          refine ⟨noisePath :: fresh, held.trans joined, count.trans ?_, ?_, ?_, ?_⟩
          · rw [List.length_cons]
            omega
          · rw [List.nodup_cons]
            exact ⟨fun again => new.2 List.mem_cons_self again, nodup⟩
          · exact List.cons_subset_cons noisePath inside
          · rw [List.disjoint_cons_right]
            exact ⟨unseen, new.1⟩

/-- What a batch of rows does to the maintenance state: the term is left, or something
fresh is handled for it. -/
theorem excludeRows_maintenance (around : Surroundings) (noiseName : Bytes) (rows : List ResultItem)
    (s : Service σ) :
    ∃ fresh next, (s.excludeRows platform library around noiseName rows).maintenance =
        { s.maintenance.addSeen s.maintenance.noiseTermIndex fresh with
          noiseTermIndex := next
          pending := s.maintenance.pending && decide (next < noiseTerms.length) } ∧
      (next = s.maintenance.noiseTermIndex + 1 ∨
        next = s.maintenance.noiseTermIndex ∧ fresh ≠ []) ∧
      fresh.Nodup ∧ fresh ⊆ noisePrefixes platform around noiseName rows ∧
      List.Disjoint (s.maintenance.seenPrefixes s.maintenance.noiseTermIndex) fresh := by
  have excluded := applyPrefixes_maintenance platform library s.maintenance.noiseTermIndex 0
    (noisePrefixes platform around noiseName rows) s
  unfold excludeRows
  dsimp only
  revert excluded
  generalize s.applyPrefixes platform library s.maintenance.noiseTermIndex 0
    (noisePrefixes platform around noiseName rows) = result
  obtain ⟨applied, t⟩ := result
  rintro ⟨fresh, held, count, nodup, inside, new⟩
  dsimp only at held count ⊢
  refine ⟨fresh, if rows.isEmpty || applied == 0 then s.maintenance.noiseTermIndex + 1
    else s.maintenance.noiseTermIndex, ?_, ?_, nodup, inside, new⟩
  · rw [held]
    rfl
  · split
    · exact .inl rfl
    · rename_i stays
      right
      refine ⟨rfl, ?_⟩
      rintro rfl
      apply stays
      rw [count]
      exact Bool.or_true _

end Parts
end Service

namespace Maintenance

/-- A poll keeps the account, and unless it ends maintenance it spends what it should. -/
structure Uses (F : Nat) (known : List Bytes) (spent : Nat) (m n : Maintenance) : Prop where
  accounted : n.Accounted known
  spends : n.pending = true → spent + n.potential F known ≤ m.potential F known

variable {F : Nat} {known : List Bytes} {m n : Maintenance}

theorem Uses.refl (accounted : m.Accounted known) : Uses F known 0 m m :=
  ⟨accounted, fun _ => Nat.le_of_eq (Nat.zero_add _)⟩

/-- Maintenance that is no longer pending spends nothing. -/
theorem Accounted.ended (accounted : m.Accounted known) (spent : Nat) :
    Uses F known spent m { m with pending := false } := by
  refine ⟨⟨?_, ?_, accounted.nodup, accounted.known, accounted.named⟩, ?_⟩
  · intro pending
    exact Bool.noConfusion pending
  · intro pending
    exact Bool.noConfusion pending
  · intro pending
    exact Bool.noConfusion pending

theorem Accounted.addSeen (accounted : m.Accounted known) {term : Bytes} {fresh : List Bytes}
    (under : Service.noiseTerms[m.noiseTermIndex]? = some term) (nodup : fresh.Nodup)
    (inside : fresh ⊆ known) (named : ∀ noisePath ∈ fresh, lower (lastPart noisePath) = term)
    (new : List.Disjoint (m.seenPrefixes m.noiseTermIndex) fresh) :
    (m.addSeen m.noiseTermIndex fresh).Accounted known := by
  refine ⟨accounted.enabled, accounted.index, ?_, ?_, ?_⟩
  · intro k
    by_cases here : k = m.noiseTermIndex
    · subst here
      rw [seen_addSeen, List.nodup_append']
      exact ⟨accounted.nodup _, nodup, new⟩
    · rw [seen_addSeen_of_ne here]
      exact accounted.nodup k
  · intro k
    by_cases here : k = m.noiseTermIndex
    · subst here
      rw [seen_addSeen]
      exact List.append_subset.mpr ⟨accounted.known _, inside⟩
    · rw [seen_addSeen_of_ne here]
      exact accounted.known k
  · intro k other at_ noisePath member
    by_cases here : k = m.noiseTermIndex
    · subst here
      rw [under] at at_
      obtain rfl := Option.some.inj at_
      rw [seen_addSeen] at member
      rcases List.mem_append.mp member with earlier | added
      · exact accounted.named _ term under noisePath earlier
      · exact named noisePath added
    · rw [seen_addSeen_of_ne here] at member
      exact accounted.named k other at_ noisePath member

/-- A queried term is left, or its handled prefixes grow. -/
theorem uses_query (accounted : m.Accounted known) {term : Bytes} {fresh : List Bytes} {next : Nat}
    (under : Service.noiseTerms[m.noiseTermIndex]? = some term) (nodup : fresh.Nodup)
    (inside : fresh ⊆ known) (named : ∀ noisePath ∈ fresh, lower (lastPart noisePath) = term)
    (new : List.Disjoint (m.seenPrefixes m.noiseTermIndex) fresh)
    (moves : next = m.noiseTermIndex + 1 ∨ next = m.noiseTermIndex ∧ fresh ≠ []) :
    Uses F known 1 m { m.addSeen m.noiseTermIndex fresh with
      noiseTermIndex := next
      pending := m.pending && decide (next < Service.noiseTerms.length) } := by
  have grown := accounted.addSeen under nodup inside named new
  have place := (List.getElem?_eq_some_iff.mp under).1
  refine ⟨⟨?_, ?_, grown.nodup, grown.known, grown.named⟩, ?_⟩
  · intro pending
    exact accounted.enabled (Bool.and_eq_true _ _ ▸ pending).1
  · intro pending
    exact of_decide_eq_true (Bool.and_eq_true _ _ ▸ pending).2
  · intro pending
    have further : next < Service.noiseTerms.length :=
      of_decide_eq_true (Bool.and_eq_true _ _ ▸ pending).2
    have longer := length_handled_addSeen place fresh m
    have bounded := length_handled_le grown
    simp only [potential]
    change 1 + (m.fixedLeft F + (known.length - (m.addSeen m.noiseTermIndex fresh).handled.length) +
      (Service.noiseTerms.length - next)) ≤ _
    rcases moves with rfl | ⟨rfl, some⟩
    · omega
    · have positive := List.length_pos_iff.mpr some
      omega

/-- The cursor moves by a whole batch, or behind the last exclusion. -/
theorem batches_sub_le (exclusions : Nat) (more : Service.maintenanceMutationLimit < exclusions) :
    1 + batches (exclusions - Service.maintenanceMutationLimit) ≤ batches exclusions := by
  simp only [batches, Service.maintenanceMutationLimit] at *
  omega

theorem batches_mono {a b : Nat} (order : a ≤ b) : batches a ≤ batches b := by
  simp only [batches, Service.maintenanceMutationLimit]
  omega

end Maintenance

namespace Service
variable {σ : Type} (platform : Platform) {F : Nat} {known : List Bytes}

section Poll
variable (library : Library σ) (around : Surroundings) {s : Service σ}

/-- Behind the fixed part the cursor stands a batch further, or at the end. -/
theorem scrubFixed_maintenance (ready : (s.scrubFixed platform library).1 = true) :
    ∃ exclusions index, (s.scrubFixed platform library).2.maintenance = { s.maintenance with
        fixedReady := true, fixedExclusions := exclusions, fixedIndex := index } ∧
      (exclusions.length ≤ F →
        Maintenance.batches (exclusions.length - index) ≤ s.maintenance.fixedLeft F ∧
          (index < exclusions.length →
            1 + Maintenance.batches (exclusions.length - index) ≤ s.maintenance.fixedLeft F)) := by
  have batch : ∀ t : Service σ, t.maintenance.fixedReady = true → ∃ index,
      (t.applyFixed library maintenanceMutationLimit).maintenance =
        { t.maintenance with fixedIndex := index } ∧
      Maintenance.batches (t.maintenance.fixedExclusions.length - index) ≤ t.maintenance.fixedLeft F ∧
        (index < t.maintenance.fixedExclusions.length →
          1 + Maintenance.batches (t.maintenance.fixedExclusions.length - index) ≤
            t.maintenance.fixedLeft F) := by
    intro t ready
    refine ⟨_, applyFixed_maintenance library maintenanceMutationLimit t, ?_, ?_⟩
    · simp only [Maintenance.fixedLeft]
      rw [if_pos ready]
      apply Maintenance.batches_mono
      omega
    · intro open_
      simp only [Maintenance.fixedLeft]
      rw [if_pos ready]
      have further : t.maintenance.fixedExclusions.length - max t.maintenance.fixedIndex
          (min (t.maintenance.fixedIndex + maintenanceMutationLimit)
            t.maintenance.fixedExclusions.length) =
          t.maintenance.fixedExclusions.length - t.maintenance.fixedIndex -
            maintenanceMutationLimit := by omega
      rw [further]
      apply Maintenance.batches_sub_le
      omega
  simp only [scrubFixed] at ready ⊢
  cases prepared : s.maintenance.fixedReady with
  | true =>
    simp only [if_true]
    obtain ⟨index, held, least, less⟩ := batch s prepared
    refine ⟨s.maintenance.fixedExclusions, index, held.trans ?_, fun _ => ⟨least, less⟩⟩
    rw [← prepared]
  | false =>
    simp only [prepared, Bool.false_eq_true, if_false] at ready ⊢
    unfold prepareFixedMaintenance at ready ⊢
    split at ready
    · contradiction
    · rename_i values t listed
      have kept : t.maintenance = s.maintenance := by
        have same : (s.call (Loaded.roots library)).2.maintenance = s.maintenance := rfl
        rwa [listed] at same
      dsimp only
      split at ready
      · contradiction
      · rename_i planned plan
        simp only [if_true]
        obtain ⟨index, held, least, less⟩ := batch { t with maintenance := { t.maintenance with
          fixedExclusions := planned.exclusions, fixedIndex := 0, fixedReady := true } } rfl
        refine ⟨planned.exclusions, index, held.trans ?_, ?_⟩
        · dsimp only
          rw [kept]
        · intro few
          have start : Maintenance.batches (planned.exclusions.length - 0) ≤
              s.maintenance.fixedLeft F := by
            simp only [Maintenance.fixedLeft]
            rw [prepared]
            exact Maintenance.batches_mono few
          exact ⟨least.trans start, fun open_ => (less open_).trans start⟩

theorem scrubFixed_unready (refused : (s.scrubFixed platform library).1 = false) :
    (s.scrubFixed platform library).2.maintenance = s.maintenance := by
  simp only [scrubFixed] at refused ⊢
  cases prepared : s.maintenance.fixedReady with
  | true =>
    simp only [prepared, if_true] at refused
    contradiction
  | false =>
    simp only [prepared, Bool.false_eq_true, if_false] at refused ⊢
    unfold prepareFixedMaintenance at refused ⊢
    split at refused
    · rename_i e t listed
      dsimp only
      have same : (s.call (Loaded.roots library)).2.maintenance = s.maintenance := rfl
      rw [listed] at same
      exact same
    · rename_i values t listed
      split at refused
      · rename_i e plan
        dsimp only
        have same : (s.call (Loaded.roots library)).2.maintenance = s.maintenance := rfl
        rw [listed] at same
        exact same
      · contradiction

/-- The rows of the query for the term under way. -/
def queriedRows (s : Service σ) : List ResultItem :=
  match noiseTerms[s.maintenance.noiseTermIndex]? with
  | none => []
  | some noiseName => (s.call
      (Loaded.search library around.zone s.dialect around.now noiseName 512)).1.items

/-- The noise prefixes that the rows of a term's query lie under are known. -/
def Reported (known : List Bytes) (term : Nat) (rows : List ResultItem) : Prop :=
  ∀ noiseName ∈ noiseTerms[term]?, ∀ row ∈ rows, ∀ noisePath ∈
    defaultNoiseDirectoryPrefix platform.convention row.path noiseName, noisePath ∈ known

theorem scrubTerm_uses (iterates : ∀ texts, around.iterate texts ⊆ texts)
    (accounted : s.maintenance.Accounted known)
    (reported : Reported platform known s.maintenance.noiseTermIndex
      (s.queriedRows library around)) :
    Maintenance.Uses F known 1 s.maintenance
      (s.scrubTerm platform library around).maintenance := by
  simp only [queriedRows] at reported
  simp only [scrubTerm]
  split
  · exact accounted.ended 1
  · rename_i noiseName named
    simp only [named] at reported
    have kept : (s.call (Loaded.search library around.zone s.dialect around.now noiseName
        512)).2.maintenance = s.maintenance := rfl
    revert reported kept
    generalize s.call (Loaded.search library around.zone s.dialect around.now noiseName 512) = called
    obtain ⟨outcome, t⟩ := called
    intro reported kept
    dsimp only at reported kept ⊢
    have reported := reported noiseName named
    rw [← kept] at accounted named ⊢
    split
    · exact accounted.ended 1
    · obtain ⟨fresh, next, held, moves, nodup, inside, new⟩ :=
        excludeRows_maintenance platform library around noiseName outcome.items t
      have term : noiseName ∈ noiseTerms := List.mem_of_getElem? named
      have folded : ∀ name ∈ noiseTerms, lower name = name := by decide
      have derived : ∀ noisePath ∈ fresh, ∃ row ∈ outcome.items,
          defaultNoiseDirectoryPrefix platform.convention row.path noiseName = some noisePath := by
        intro noisePath member
        have listed := List.mem_dedup.mp (iterates _ (inside member))
        exact List.mem_filterMap.mp listed
      rw [held]
      apply Maintenance.uses_query accounted named nodup _ _ new moves
      · intro noisePath member
        obtain ⟨row, shown, found⟩ := derived noisePath member
        exact reported row shown noisePath found
      · intro noisePath member
        obtain ⟨row, -, found⟩ := derived noisePath member
        rw [noisePrefix_lastPart found, folded noiseName term]

/-- The rows the poll of an idle runtime is shown; none where it makes no query. -/
def idleRows (s : Service σ) : List ResultItem :=
  let (ready, s) := s.scrubFixed platform library
  if !ready || decide (s.maintenance.fixedIndex < s.maintenance.fixedExclusions.length) then []
  else s.queriedRows library around

theorem scrubIdle_exclusions (s : Service σ) :
    (s.scrubIdle platform library around).maintenance.fixedExclusions =
      (s.scrubFixed platform library).2.maintenance.fixedExclusions := by
  simp only [scrubIdle]
  generalize s.scrubFixed platform library = fixed
  obtain ⟨ready, t⟩ := fixed
  dsimp only
  split
  · rfl
  · split
    · rfl
    · simp only [scrubTerm]
      split
      · rfl
      · rename_i noiseName named
        have kept : (t.call (Loaded.search library around.zone t.dialect around.now noiseName
            512)).2.maintenance = t.maintenance := rfl
        revert kept
        generalize t.call (Loaded.search library around.zone t.dialect around.now noiseName 512) = called
        obtain ⟨outcome, u⟩ := called
        intro kept
        dsimp only at kept ⊢
        split
        · change u.maintenance.fixedExclusions = t.maintenance.fixedExclusions
          rw [kept]
        · obtain ⟨fresh, next, held, -⟩ :=
            excludeRows_maintenance platform library around noiseName outcome.items u
          rw [held, kept]
          rfl

theorem scrubIdle_uses (iterates : ∀ texts, around.iterate texts ⊆ texts)
    (accounted : s.maintenance.Accounted known)
    (reported : Reported platform known s.maintenance.noiseTermIndex
      (s.idleRows platform library around))
    (planned : (s.scrubIdle platform library around).maintenance.fixedExclusions.length ≤ F) :
    Maintenance.Uses F known 1 s.maintenance (s.scrubIdle platform library around).maintenance := by
  rw [scrubIdle_exclusions] at planned
  have moved := @scrubFixed_maintenance σ platform F library s
  have still := @scrubFixed_unready σ platform library s
  simp only [idleRows] at reported
  simp only [scrubIdle]
  revert planned moved still reported
  generalize s.scrubFixed platform library = fixed
  obtain ⟨ready, t⟩ := fixed
  intro reported planned moved still
  dsimp only at reported planned moved still ⊢
  cases ready with
  | false =>
    rw [Bool.not_false, if_pos rfl]
    have ended := accounted.ended (F := F) 1
    rwa [← still rfl] at ended ⊢
  | true =>
    obtain ⟨exclusions, index, held, bounds⟩ := moved rfl
    rw [held] at planned
    obtain ⟨least, less⟩ := bounds planned
    have same : t.maintenance.Accounted known := by
      rw [held]
      exact ⟨accounted.enabled, accounted.index, accounted.nodup, accounted.known, accounted.named⟩
    have cost : ∀ left, left + Maintenance.batches (exclusions.length - index) ≤
        s.maintenance.fixedLeft F → left + t.maintenance.potential F known ≤
          s.maintenance.potential F known := by
      intro left enough
      rw [held]
      simp only [Maintenance.potential]
      change left + (Maintenance.batches (exclusions.length - index) +
        (known.length - s.maintenance.handled.length) +
          (noiseTerms.length - s.maintenance.noiseTermIndex)) ≤ _
      omega
    rw [Bool.not_true, if_neg Bool.false_ne_true]
    split
    · rename_i open_
      rw [held] at open_
      exact ⟨same, fun _ => cost 1 (less open_)⟩
    · rename_i closed
      rw [Bool.not_true, Bool.false_or, if_neg (by rw [decide_eq_true_iff]; exact closed)] at reported
      have index' : t.maintenance.noiseTermIndex = s.maintenance.noiseTermIndex := by rw [held]
      rw [← index'] at reported
      have query := scrubTerm_uses (F := F) platform library around iterates same reported
      refine ⟨query.accounted, fun pending => (query.spends pending).trans ?_⟩
      have nothing := cost 0 ((Nat.zero_add _).trans_le least)
      rwa [Nat.zero_add] at nothing

end Poll

/-- The poll of one tick. -/
def tick (t : Tick σ) (s : Service σ) : Service σ :=
  { s with runtime := t.between s.runtime }.scrubOneBatch platform t.library t.around

/-- Whether the runtime is idle at the tick. -/
def idleAt (s : Service σ) (t : Tick σ) : Bool :=
  !((t.between s.runtime).status t.library).1.indexing

/-- The rows the poll of a tick is shown. -/
def shownRows (t : Tick σ) (s : Service σ) : List ResultItem :=
  if s.maintenance.pending && s.maintenance.enabled && idleAt s t then
    { s with runtime := ((t.between s.runtime).status t.library).2 }.idleRows platform t.library
      t.around
  else []

/-- What the polls of a run may meet: every reported noise prefix is one of `known`, and at
most `F` fixed exclusions are planned. -/
def Meets (F : Nat) (known : List Bytes) (s : Service σ) (t : Tick σ) : Prop :=
  Reported platform known s.maintenance.noiseTermIndex (s.shownRows platform t) ∧
    (s.tick platform t).maintenance.fixedExclusions.length ≤ F

/-- Polls one after another; no run of polls gets stuck. -/
def polls (s : Service σ) (t : Tick σ) : Option (Service σ) := some (s.tick platform t)

instance (F : Nat) (known : List Bytes) (s : Service σ) (t : Tick σ) :
    Decidable (Meets platform F known s t) :=
  inferInstanceAs (Decidable ((∀ noiseName ∈ noiseTerms[s.maintenance.noiseTermIndex]?,
    ∀ row ∈ s.shownRows platform t, ∀ noisePath ∈
      defaultNoiseDirectoryPrefix platform.convention row.path noiseName, noisePath ∈ known) ∧ _))

theorem throughout_polls_cons {P : Service σ → Tick σ → Prop} {s : Service σ} {t : Tick σ}
    {rest : List (Tick σ)} : Throughout (polls platform) P s (t :: rest) ↔
      P s t ∧ Throughout (polls platform) P (s.tick platform t) rest := by
  apply and_congr_right
  intro _
  constructor
  · intro later
    exact later (s.tick platform t) rfl
  · rintro later u polled
    cases polled
    exact later

instance decidableThroughoutPolls (F : Nat) (known : List Bytes) :
    (s : Service σ) → (ticks : List (Tick σ)) →
      Decidable (Throughout (polls platform) (Meets platform F known) s ticks)
  | _, [] => .isTrue trivial
  | s, t :: rest =>
    have := decidableThroughoutPolls F known (s.tick platform t) rest
    decidable_of_iff _ (throughout_polls_cons platform).symm

theorem tick_of_not_pending {t : Tick σ} {s : Service σ} (settled : s.maintenance.pending = false) :
    (s.tick platform t).maintenance = s.maintenance := by
  simp only [tick, scrubOneBatch]
  rw [settled]
  rfl

theorem tick_uses {t : Tick σ} {s : Service σ} (accounted : s.maintenance.Accounted known)
    (meets : Meets platform F known s t) :
    Maintenance.Uses F known (idleAt s t).toNat s.maintenance (s.tick platform t).maintenance := by
  obtain ⟨reported, planned⟩ := meets
  cases pending : s.maintenance.pending with
  | false =>
    rw [tick_of_not_pending platform pending]
    exact ⟨accounted, fun again => Bool.noConfusion (pending.symm.trans again)⟩
  | true =>
    have enabled := accounted.enabled pending
    simp only [shownRows] at reported
    rw [pending, enabled, Bool.true_and, Bool.true_and] at reported
    have guarded : (!s.maintenance.pending || !s.maintenance.enabled) = false := by
      rw [pending, enabled]
      rfl
    unfold tick scrubOneBatch at planned ⊢
    dsimp only at planned ⊢
    rw [guarded, if_neg Bool.false_ne_true] at planned ⊢
    unfold call at planned ⊢
    dsimp only at planned ⊢
    unfold idleAt at reported ⊢
    cases busy : ((t.between s.runtime).status t.library).1.indexing with
    | true =>
      rw [if_pos rfl]
      exact Maintenance.Uses.refl accounted
    | false =>
      rw [busy, if_neg Bool.false_ne_true] at planned
      rw [busy, Bool.not_false, if_pos rfl] at reported
      rw [if_neg Bool.false_ne_true]
      exact scrubIdle_uses (s := { s with runtime := ((t.between s.runtime).status t.library).2 })
        platform t.library t.around t.iterate_subset accounted reported planned

theorem settled_run {s : Service σ} (settled : s.maintenance.pending = false)
    (ticks : List (Tick σ)) : (outcome (polls platform) s ticks).maintenance.pending = false := by
  induction ticks generalizing s with
  | nil => exact settled
  | cons t rest ih =>
    apply ih
    rw [tick_of_not_pending platform settled]
    exact settled

theorem outcome_append (s : Service σ) (ticks more : List (Tick σ)) :
    outcome (polls platform) s (ticks ++ more) =
      outcome (polls platform) (outcome (polls platform) s ticks) more := by
  induction ticks generalizing s with
  | nil => rfl
  | cons t rest ih => exact ih (s.tick platform t)

theorem requestMaintenance_accounted {s : Service σ}
    (sound : s.maintenance.pending = true → s.maintenance.enabled = true) :
    s.requestMaintenance.maintenance.pending = true →
      s.requestMaintenance.maintenance.Accounted known ∧
        s.requestMaintenance.maintenance.potential F known =
          Maintenance.batches F + known.length + noiseTerms.length := by
  simp only [requestMaintenance]
  split
  · rename_i disabled
    intro pending
    rw [sound pending] at disabled
    contradiction
  · intro pending
    refine ⟨⟨fun _ => rfl, ?_, fun _ => List.nodup_nil, fun _ => List.nil_subset known, ?_⟩, rfl⟩
    · intro _
      change 0 < 3
      omega
    · intro k term named noisePath member
      exact absurd member List.not_mem_nil

end Service

/-- Maintenance ends: once as many idle polls were made as there are batches of fixed
exclusions, noise prefixes to report and noise terms, it is not pending, whatever the
runtime answered at each poll, and it stays so. -/
theorem maintenance_ends {σ : Type} (platform : Platform) (F : Nat) (known : List Bytes)
    (start : Service σ) (sound : start.maintenance.pending = true → start.maintenance.enabled = true)
    (ticks : List (Tick σ))
    (meets : Throughout (Service.polls platform) (Service.Meets platform F known)
      start.requestMaintenance ticks)
    (enough : (F + 15) / 16 + known.length + 3 ≤
      tally (Service.polls platform) Service.idleAt start.requestMaintenance ticks) :
    (outcome (Service.polls platform) start.requestMaintenance ticks).maintenance.pending = false ∧
      ∀ more, (outcome (Service.polls platform) start.requestMaintenance
        (ticks ++ more)).maintenance.pending = false := by
  have ends : (outcome (Service.polls platform) start.requestMaintenance
      ticks).maintenance.pending = false := by
    cases pending : start.requestMaintenance.maintenance.pending with
    | false => exact Service.settled_run platform pending ticks
    | true =>
      obtain ⟨accounted, full⟩ := Service.requestMaintenance_accounted (F := F) sound pending
      have keeps : ∀ (s : Service σ) t u, s.maintenance.Accounted known →
          Service.Meets platform F known s t → Service.polls platform s t = some u →
          u.maintenance.Accounted known := by
        rintro s t u accounted meets polled
        cases polled
        exact (Service.tick_uses platform accounted meets).accounted
      have drops : ∀ (s : Service σ) t u, s.maintenance.Accounted known →
          Service.Meets platform F known s t → Service.polls platform s t = some u →
          u.maintenance.pending = true →
          (Service.idleAt s t).toNat + u.maintenance.potential F known ≤
            s.maintenance.potential F known := by
        rintro s t u accounted meets polled
        cases polled
        exact (Service.tick_uses platform accounted meets).spends
      have stays : ∀ (s : Service σ) t u, ¬ s.maintenance.pending = true →
          Service.polls platform s t = some u → ¬ u.maintenance.pending = true := by
        rintro s t u settled polled
        cases polled
        rwa [Service.tick_of_not_pending platform (Bool.not_eq_true _ ▸ settled)]
      have positive : ∀ s : Service σ, s.maintenance.pending = true →
          s.maintenance.Accounted known → 0 < s.maintenance.potential F known := by
        intro s pending accounted
        have left := accounted.index pending
        simp only [Maintenance.potential]
        omega
      rw [← Bool.not_eq_true]
      exact not_active_of_tally keeps stays drops positive accounted meets (full.trans_le enough)
  refine ⟨ends, ?_⟩
  intro more
  rw [Service.outcome_append]
  exact Service.settled_run platform ends more

/-- A runtime that lists one root, crawls never and reports one file under `.git`. -/
def oneNoiseFile : Library Unit where
  view _ := {
    lastError := []
    listExtensions := []
    search := fun _ _ _ => .ok [⟨1, some (lit "config.txt"), some (lit "/r/.git/config.txt"), none,
      0, 1, 1, 0, 0⟩]
    searchContent := none }
  addRoot _ s := (true, s)
  removeRoot _ s := (true, s)
  replaceRoots _ s := (true, s)
  listRoots s := (some [lit "/r"], s)
  setIndexed _ _ s := (true, s)
  setPinned _ _ s := (true, s)
  reindexAsync s := s
  status s := (some {}, s)
  generation _ := 0

def staleTick : Tick Unit where
  library := oneNoiseFile
  between := id
  around := ⟨Zone.utc, 1700000000, id⟩
  iterate_subset _ := List.Subset.refl _

/-- The row is reported at every poll, before and after its directory was excluded. -/
theorem stale_row_maintenance_ends :
    (outcome (Service.polls (.posix some))
      ({ runtime := ⟨[], ()⟩, dialect := .unixLike } : Service Unit).requestMaintenance
      (List.replicate 4 staleTick)).maintenance.pending = false :=
  (maintenance_ends (.posix some) 0 [lit "/r/.git"] _ (fun _ => rfl) (List.replicate 4 staleTick)
    (by decide +kernel) (by decide +kernel)).1

end Such.IndexRootService
