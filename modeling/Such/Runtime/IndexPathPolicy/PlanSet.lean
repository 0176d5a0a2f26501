import Such.Base.KeyedList
import Such.Runtime.IndexPathPolicy.InstallRoot

/-! Plans for a set of roots, over any family of plans for single roots: what they exclude is
joined by path key, and an explicit AppData root cancels whatever stands in its way, whichever
root brought it in. -/
namespace Such.IndexPathPolicy
open ByteText LexicalPath KeyedList

section Families
variable (platform : Platform) (plan : IndexPolicyRootRequest → IndexPathPolicyPlan)

/-- The plans of a family joined, up to the first root that is rejected. -/
def combineFamily : Gathered → List IndexPolicyRootRequest → Except IndexPathPolicyPlan Gathered
  | combined, [] => .ok combined
  | combined, request :: rest =>
    if !(plan request).rootAllowed then .error (plan request)
    else combineFamily ((plan request).exclusions.foldl (appendUnique platform) combined) rest

def planFamilySet (roots : List IndexPolicyRootRequest) : IndexPathPolicyPlan :=
  match combineFamily platform plan {} roots with
  | .error item => item
  | .ok combined =>
    let allowed := explicitAppDataRoots platform roots
    { exclusions := combined.out.filter fun excluded => !allowed.any fun root =>
        pathIsWithin platform excluded root || pathIsWithin platform root excluded }

def defaultPlan (request : IndexPolicyRootRequest) : IndexPathPolicyPlan :=
  planDefaultIndexPolicy platform request.root request.overrideMode

theorem combinePlans_eq (combined : Gathered) (roots : List IndexPolicyRootRequest) :
    combinePlans platform combined roots = combineFamily platform (defaultPlan platform) combined roots := by
  induction roots generalizing combined with
  | nil => rfl
  | cons request rest ih =>
    simp only [combinePlans, combineFamily, ih]
    rfl

/-- The product's planner is the one over its own plans. -/
theorem planDefaultIndexPolicySet_eq :
    planDefaultIndexPolicySet platform = planFamilySet platform (defaultPlan platform) := by
  funext roots
  rw [planDefaultIndexPolicySet, combinePlans_eq]
  rfl

end Families

section Purpose
variable (host : WindowsHost) (plan : IndexPolicyRootRequest → IndexPathPolicyPlan)

/-- The key a path is joined under. -/
def exclusionKey (path : Bytes) : Bytes :=
  pathKey (.windows host) (normalizedAbsolute (.windows host) path)

/-- Neither path holds the other. -/
def Clear (path root : Bytes) : Prop :=
  pathIsWithin (.windows host) path root = false ∧ pathIsWithin (.windows host) root path = false

/-- The key of an excluded path that is clear of every explicit AppData root. -/
structure Due (roots : List IndexPolicyRootRequest) (key : Bytes) : Prop where
  filled : key ≠ []
  planned : ∃ request ∈ roots, ∃ excluded ∈ (plan request).exclusions, exclusionKey host excluded = key
  clear : ∀ root ∈ explicitAppDataRoots (.windows host) roots,
    keyIsWithin key (pathKey (.windows host) root) = false ∧
      keyIsWithin (pathKey (.windows host) root) key = false

def keysOf (planned : IndexPathPolicyPlan) : List Bytes := planned.exclusions.map (pathKey (.windows host))

/-- What a planner for sets makes of a family of plans for single roots. -/
structure PlansSets (planSet : List IndexPolicyRootRequest → IndexPathPolicyPlan) : Prop where
  /-- No exclusion equals, holds or lies in an explicit AppData root. -/
  clear : ∀ roots, (planSet roots).rootAllowed = true → ∀ excluded ∈ (planSet roots).exclusions,
    ∀ root ∈ explicitAppDataRoots (.windows host) roots, Clear host excluded root
  /-- Every other exclusion of every root is there once. A path without a key is no path. -/
  once : ∀ roots, (planSet roots).rootAllowed = true → ∀ request ∈ roots,
    ∀ excluded ∈ (plan request).exclusions, exclusionKey host excluded ≠ [] →
      (∀ root ∈ explicitAppDataRoots (.windows host) roots,
        Clear host (normalizedAbsolute (.windows host) excluded) root) →
      (keysOf host (planSet roots)).count (exclusionKey host excluded) = 1
  /-- Order and repetition of the requests decide nothing. -/
  accepts : ∀ roots roots', (∀ request, request ∈ roots' ↔ request ∈ roots) →
    (planSet roots').rootAllowed = (planSet roots).rootAllowed
  excludes : ∀ roots roots', (∀ request, request ∈ roots' ↔ request ∈ roots) →
    (planSet roots).rootAllowed = true →
      (keysOf host (planSet roots')).Perm (keysOf host (planSet roots))

end Purpose

section Joining
variable {host : WindowsHost} {plan : IndexPolicyRootRequest → IndexPathPolicyPlan}

/-- The paths as they are joined; those without a key fall out. -/
def filed (host : WindowsHost) (paths : List Bytes) : List Bytes :=
  (paths.map (normalizedAbsolute (.windows host))).filter fun path =>
    !(pathKey (.windows host) path).isEmpty

theorem mem_keys_filed {paths : List Bytes} {key : Bytes} :
    key ∈ (filed host paths).map (pathKey (.windows host)) ↔
      key ≠ [] ∧ ∃ path ∈ paths, exclusionKey host path = key := by
  simp only [filed, List.mem_map, List.mem_filter]
  constructor
  · rintro ⟨_, ⟨⟨path, member, rfl⟩, some_⟩, rfl⟩
    exact ⟨by simpa using some_, path, member, rfl⟩
  · rintro ⟨some_, path, member, rfl⟩
    exact ⟨_, ⟨⟨path, member, rfl⟩, by simpa [exclusionKey] using some_⟩, rfl⟩

/-- Joining keeps the first path of each key. -/
theorem foldl_appendUnique {acc : Gathered} (keyed : Keyed host acc) (paths : List Bytes) :
    Keyed host (paths.foldl (appendUnique (.windows host)) acc) ∧
      (paths.foldl (appendUnique (.windows host)) acc).out =
        (filed host paths).foldl (fun unique path => insertBy (pathKey (.windows host)) path unique)
          acc.out := by
  induction paths generalizing acc with
  | nil => exact ⟨keyed, rfl⟩
  | cons path rest ih =>
    have next : Keyed host (appendUnique (.windows host) acc path) ∧
        (appendUnique (.windows host) acc path).out =
          (filed host [path]).foldl (fun unique path => insertBy (pathKey (.windows host)) path unique)
            acc.out := by
      simp only [appendUnique, filed, List.map_cons, List.map_nil]
      cases none : (pathKey (.windows host) (normalizedAbsolute (.windows host) path)).isEmpty with
      | true =>
        rw [Bool.true_or, if_pos rfl, List.filter_cons_of_neg (by rw [none]; simp)]
        exact ⟨keyed, rfl⟩
      | false =>
        rw [Bool.false_or, List.filter_cons_of_pos (by rw [none]; rfl)]
        have taken : acc.seen.contains
            (pathKey (.windows host) (normalizedAbsolute (.windows host) path)) = true ↔
              pathKey (.windows host) (normalizedAbsolute (.windows host) path) ∈
                acc.out.map (pathKey (.windows host)) := by
          rw [keyed, List.contains_iff_mem]
        by_cases known : pathKey (.windows host) (normalizedAbsolute (.windows host) path) ∈
            acc.out.map (pathKey (.windows host))
        · rw [if_pos (taken.mpr known)]
          exact ⟨keyed, (insertBy_of_mem _ known).symm⟩
        · rw [if_neg (mt taken.mp known)]
          refine ⟨?_, (insertBy_of_notMem _ known).symm⟩
          simp only [Keyed] at keyed ⊢
          rw [keyed, List.map_append]
          rfl
    obtain ⟨later, out⟩ := ih next.1
    refine ⟨later, ?_⟩
    have split : filed host (path :: rest) = filed host [path] ++ filed host rest := by
      simp only [filed]
      rw [← List.filter_append, ← List.map_append]
      rfl
    rw [List.foldl_cons, out, next.2, split, List.foldl_append]

theorem combineFamily_ok {acc last : Gathered} (keyed : Keyed host acc)
    {roots : List IndexPolicyRootRequest}
    (done : combineFamily (.windows host) plan acc roots = .ok last) :
    (∀ request ∈ roots, (plan request).rootAllowed = true) ∧
      last.out = (filed host (roots.flatMap fun request => (plan request).exclusions)).foldl
        (fun unique path => insertBy (pathKey (.windows host)) path unique) acc.out := by
  induction roots generalizing acc with
  | nil =>
    cases done
    exact ⟨fun _ member => absurd member List.not_mem_nil, rfl⟩
  | cons request rest ih =>
    simp only [combineFamily] at done
    split at done
    · cases done
    · rename_i allowed
      obtain ⟨next, joined⟩ := foldl_appendUnique keyed (plan request).exclusions
      obtain ⟨others, out⟩ := ih next done
      constructor
      · rw [List.forall_mem_cons]
        exact ⟨by simpa using allowed, others⟩
      · rw [out, joined, List.flatMap_cons]
        simp only [filed]
        rw [List.map_append, List.filter_append, List.foldl_append]

theorem combineFamily_error {acc : Gathered} {item : IndexPathPolicyPlan}
    {roots : List IndexPolicyRootRequest}
    (stopped : combineFamily (.windows host) plan acc roots = .error item) :
    item.rootAllowed = false ∧ ∃ request ∈ roots, (plan request).rootAllowed = false := by
  induction roots generalizing acc with
  | nil => cases stopped
  | cons request rest ih =>
    simp only [combineFamily] at stopped
    split at stopped
    · rename_i refused
      cases stopped
      have refused : (plan request).rootAllowed = false := by simpa using refused
      exact ⟨refused, request, List.mem_cons_self, refused⟩
    · obtain ⟨off, other, member, refused⟩ := ih stopped
      exact ⟨off, other, List.mem_cons_of_mem _ member, refused⟩

end Joining

section Sets
variable {host : WindowsHost} {plan : IndexPolicyRootRequest → IndexPathPolicyPlan}
  {roots roots' : List IndexPolicyRootRequest}

theorem allowed_iff : (planFamilySet (.windows host) plan roots).rootAllowed = true ↔
    ∀ request ∈ roots, (plan request).rootAllowed = true := by
  simp only [planFamilySet]
  cases combined : combineFamily (.windows host) plan {} roots with
  | error item =>
    obtain ⟨off, request, member, refused⟩ := combineFamily_error combined
    constructor
    · intro allowed
      exact absurd (off.symm.trans allowed) Bool.false_ne_true
    · intro all
      exact absurd (refused.symm.trans (all request member)) Bool.false_ne_true
  | ok acc => exact ⟨fun _ => (combineFamily_ok keyed_empty combined).1, fun _ => rfl⟩

theorem clear_iff {path : Bytes} : (!(explicitAppDataRoots (.windows host) roots).any fun root =>
      pathIsWithin (.windows host) path root || pathIsWithin (.windows host) root path) = true ↔
    ∀ root ∈ explicitAppDataRoots (.windows host) roots, Clear host path root := by
  simp [Clear]

/-- An accepted set is the joined plans without what an explicit AppData root cancels. -/
theorem exclusions_of_allowed
    (allowed : (planFamilySet (.windows host) plan roots).rootAllowed = true) :
    ∃ acc, combineFamily (.windows host) plan {} roots = .ok acc ∧
      (planFamilySet (.windows host) plan roots).exclusions = acc.out.filter fun excluded =>
        !(explicitAppDataRoots (.windows host) roots).any fun root =>
          pathIsWithin (.windows host) excluded root || pathIsWithin (.windows host) root excluded := by
  simp only [planFamilySet] at allowed ⊢
  cases combined : combineFamily (.windows host) plan {} roots with
  | error item =>
    rw [combined] at allowed
    exact absurd ((combineFamily_error combined).1.symm.trans allowed) Bool.false_ne_true
  | ok acc => exact ⟨acc, rfl, rfl⟩

/-- The exclusions of an accepted set have different keys, and these are the keys that are due. -/
theorem keys_of_allowed (allowed : (planFamilySet (.windows host) plan roots).rootAllowed = true) :
    (keysOf host (planFamilySet (.windows host) plan roots)).Nodup ∧
      ∀ key, key ∈ keysOf host (planFamilySet (.windows host) plan roots) ↔ Due host plan roots key := by
  obtain ⟨acc, combined, kept⟩ := exclusions_of_allowed allowed
  obtain ⟨-, out⟩ := combineFamily_ok keyed_empty combined
  have distinct : (acc.out.map (pathKey (.windows host))).Nodup := by
    rw [out]
    exact uniqueBy_nodup _ _
  have planned : ∀ key, key ∈ acc.out.map (pathKey (.windows host)) ↔ key ≠ [] ∧
      ∃ request ∈ roots, ∃ excluded ∈ (plan request).exclusions, exclusionKey host excluded = key := by
    intro key
    rw [out, mem_map_foldl_insertBy, mem_keys_filed]
    simp only [List.map_nil, List.not_mem_nil, false_or, List.mem_flatMap, and_congr_right_iff]
    intro _
    constructor
    · rintro ⟨excluded, ⟨request, member, inside⟩, same⟩
      exact ⟨request, member, excluded, inside, same⟩
    · rintro ⟨request, member, excluded, inside, same⟩
      exact ⟨excluded, ⟨request, member, inside⟩, same⟩
  simp only [keysOf, kept]
  refine ⟨distinct.sublist (List.filter_sublist.map _), ?_⟩
  intro key
  rw [List.mem_map]
  constructor
  · rintro ⟨path, kept, rfl⟩
    obtain ⟨member, clear⟩ := List.mem_filter.mp kept
    obtain ⟨some_, from_⟩ := (planned _).mp (List.mem_map_of_mem member)
    exact ⟨some_, from_, clear_iff.mp clear⟩
  · rintro ⟨some_, from_, clear⟩
    obtain ⟨path, member, rfl⟩ := List.mem_map.mp ((planned key).mpr ⟨some_, from_⟩)
    exact ⟨path, List.mem_filter.mpr ⟨member, clear_iff.mpr clear⟩, rfl⟩

theorem mem_explicitAppDataRoots (same : ∀ request, request ∈ roots' ↔ request ∈ roots)
    (root : Bytes) :
    root ∈ explicitAppDataRoots (.windows host) roots' ↔
      root ∈ explicitAppDataRoots (.windows host) roots := by
  simp only [explicitAppDataRoots, List.mem_map, List.mem_filter, same]

theorem due_congr (same : ∀ request, request ∈ roots' ↔ request ∈ roots) (key : Bytes) :
    Due host plan roots' key ↔ Due host plan roots key := by
  have explicit := @mem_explicitAppDataRoots host roots roots' same
  constructor
  · rintro ⟨some_, ⟨request, member, from_⟩, clear⟩
    exact ⟨some_, ⟨request, (same request).mp member, from_⟩,
      fun root at_ => clear root ((explicit root).mpr at_)⟩
  · rintro ⟨some_, ⟨request, member, from_⟩, clear⟩
    exact ⟨some_, ⟨request, (same request).mpr member, from_⟩,
      fun root at_ => clear root ((explicit root).mp at_)⟩

theorem allowed_congr (same : ∀ request, request ∈ roots' ↔ request ∈ roots) :
    (planFamilySet (.windows host) plan roots').rootAllowed =
      (planFamilySet (.windows host) plan roots).rootAllowed := by
  rw [Bool.eq_iff_iff, allowed_iff, allowed_iff]
  exact forall_congr' fun request => imp_congr_left (same request)

variable (host plan)

theorem planFamilySet_plansSets : PlansSets host plan (planFamilySet (.windows host) plan) := by
  constructor
  · intro roots allowed excluded member
    obtain ⟨acc, -, kept⟩ := exclusions_of_allowed allowed
    rw [kept] at member
    exact clear_iff.mp (List.mem_filter.mp member).2
  · intro roots allowed request member excluded inside some_ clear
    obtain ⟨distinct, due⟩ := keys_of_allowed allowed
    apply List.count_eq_one_of_mem distinct
    rw [due]
    exact ⟨some_, ⟨request, member, excluded, inside, rfl⟩, clear⟩
  · intro roots roots' same
    exact allowed_congr same
  · intro roots roots' same allowed
    obtain ⟨distinct, due⟩ := keys_of_allowed allowed
    obtain ⟨distinct', due'⟩ := keys_of_allowed ((allowed_congr same).trans allowed)
    rw [List.perm_ext_iff_of_nodup distinct' distinct]
    intro key
    rw [due, due', due_congr same]

end Sets

/-- Over any family of plans for single roots, and so over the product's own: an accepted set of
roots excludes nothing that equals, holds or lies in an explicit AppData root, excludes everything
else that a root's plan excludes under one key each, and neither order nor repetition of the
requests matters. -/
theorem planDefaultIndexPolicySet_plansSets (host : WindowsHost) :
    (∀ plan, PlansSets host plan (planFamilySet (.windows host) plan)) ∧
      PlansSets host (defaultPlan (.windows host)) (planDefaultIndexPolicySet (.windows host)) := by
  refine ⟨planFamilySet_plansSets host, ?_⟩
  rw [planDefaultIndexPolicySet_eq]
  exact planFamilySet_plansSets host _

section Own
variable {host : WindowsHost} {entries : Bytes → List Bytes} (tidy : Tidy host entries)
include tidy

theorem windowsFixedExclusions_text (scopeRoot : Bytes) :
    ∀ e ∈ windowsFixedExclusions host scopeRoot, ∃ p : Place, e = p.text := by
  intro e member
  rcases tidy.installRoot with none | ⟨install, installed⟩
  · rw [windowsFixedExclusions_eq, preserveInstallRoot, none] at member
    exact plannedExclusions_text tidy scopeRoot e member
  · obtain ⟨q, same, -⟩ := windowsFixedExclusions_apart tidy installed scopeRoot e member
    exact ⟨q, same⟩

theorem appendFixed_text (root : Bytes) {fixed : List Bytes}
    (placed : ∀ e ∈ fixed, ∃ p : Place, e = p.text) {acc : Gathered}
    (held : ∀ e ∈ acc.out, ∃ p : Place, e = p.text) :
    (∀ last, appendFixed host root acc fixed = .error last →
        ∀ e ∈ last.out, ∃ p : Place, e = p.text) ∧
      ∀ last, appendFixed host root acc fixed = .ok last →
        ∀ e ∈ last.out, ∃ p : Place, e = p.text := by
  induction fixed generalizing acc with
  | nil =>
    constructor
    · intro last stopped
      cases stopped
    · intro last done
      cases done
      exact held
  | cons excluded rest ih =>
    rw [List.forall_mem_cons] at placed
    obtain ⟨⟨p, rfl⟩, placed⟩ := placed
    simp only [appendFixed]
    split
    · constructor
      · intro last stopped
        cases stopped
        exact held
      · intro last done
        cases done
    · apply ih placed
      split
      · intro e member
        rcases (appendUnique_gathers tidy acc p).only e member with before | ⟨q, -, same⟩
        · exact held e before
        · exact ⟨q, same⟩
      · exact held

theorem planWindows_text (root : Bytes) (overrideMode : IndexPolicyOverride) :
    ∀ e ∈ (planWindows host root overrideMode).exclusions, ∃ p : Place, e = p.text := by
  have none : ∀ reason, ∀ e ∈ (rejected reason).exclusions, ∃ p : Place, e = p.text :=
    fun _ _ member => absurd member List.not_mem_nil
  simp only [planWindows]
  split
  · exact none _
  · split
    · exact none _
    · have placed : ∀ fixed : List Bytes, fixed ⊆ windowsFixedExclusions host root →
          ∀ e ∈ fixed, ∃ p : Place, e = p.text :=
        fun fixed part e member => windowsFixedExclusions_text tidy root e (part member)
      have held : ∀ e ∈ ({} : Gathered).out, ∃ p : Place, e = p.text :=
        fun _ member => absurd member List.not_mem_nil
      have part : ∀ chosen : Bool, (if chosen then (windowsFixedExclusions host root).filter
            fun excluded => !(pathIsWithin (.windows host) root excluded ||
              pathIsWithin (.windows host) excluded root)
          else windowsFixedExclusions host root) ⊆ windowsFixedExclusions host root := by
        intro chosen
        split
        · exact List.filter_sublist.subset
        · exact List.Subset.refl _
      obtain ⟨stopped, done⟩ := appendFixed_text tidy root (placed _ (part _)) held
      split
      · rename_i last ends
        exact stopped last ends
      · rename_i last ends
        exact done last ends

/-- The product's plans exclude absolute normal paths, so these have keys of their own and are joined
as they are. -/
theorem defaultPlan_text (request : IndexPolicyRootRequest) :
    ∀ e ∈ (defaultPlan (.windows host) request).exclusions, ∃ p : Place, e = p.text := by
  have none : ∀ e ∈ ([] : List Bytes), ∃ p : Place, e = p.text :=
    fun _ member => absurd member List.not_mem_nil
  simp only [defaultPlan, planDefaultIndexPolicy]
  split
  · exact none
  · split
    · exact none
    · split
      · exact none
      · exact planWindows_text tidy _ _

theorem defaultPlan_key (request : IndexPolicyRootRequest) :
    ∀ e ∈ (defaultPlan (.windows host) request).exclusions,
      exclusionKey host e = pathKey (.windows host) e ∧ pathKey (.windows host) e ≠ [] := by
  intro e member
  obtain ⟨p, rfl⟩ := defaultPlan_text tidy request e member
  refine ⟨?_, pathKey_text_ne_nil tidy.folds p⟩
  rw [exclusionKey, tidy.normalizedAbsolute_text]

/-- Every exclusion of an accepted set's roots that is clear of the explicit AppData roots is there
once, under its own path key. -/
theorem defaultPlan_once {roots : List IndexPolicyRootRequest}
    (allowed : (planDefaultIndexPolicySet (.windows host) roots).rootAllowed = true)
    {request : IndexPolicyRootRequest} (member : request ∈ roots) {excluded : Bytes}
    (inside : excluded ∈ (defaultPlan (.windows host) request).exclusions)
    (clear : ∀ root ∈ explicitAppDataRoots (.windows host) roots, Clear host excluded root) :
    (keysOf host (planDefaultIndexPolicySet (.windows host) roots)).count
      (pathKey (.windows host) excluded) = 1 := by
  rw [planDefaultIndexPolicySet_eq] at allowed ⊢
  obtain ⟨p, rfl⟩ := defaultPlan_text tidy request excluded inside
  obtain ⟨key, some_⟩ := defaultPlan_key tidy request p.text inside
  rw [← key] at some_ ⊢
  apply (planFamilySet_plansSets host _).once roots allowed request member p.text inside some_
  rwa [tidy.normalizedAbsolute_text]

end Own

/-- A user whose roaming data lies on the system drive. -/
def profileHost : WindowsHost where
  decodes _ := true
  decodes_cstr _ _ := rfl
  lowercase text := some (lower text)
  absolute := some
  knownFolder
    | .roamingAppData => lit "C:\\Users\\u\\AppData\\Roaming"
    | _ => []
  moduleFile := none
  isRegularFile _ := false
  isDirectory _ := false
  children _ := []
  isReparsePoint _ := false

example :
    lit "C:\\Users\\u\\AppData\\Roaming" ∈
        (planDefaultIndexPolicySet (.windows profileHost) [⟨lit "C:\\", .none⟩]).exclusions ∧
      lit "C:\\Users\\u\\AppData\\Roaming" ∉
        (planDefaultIndexPolicySet (.windows profileHost) [⟨lit "C:\\", .none⟩,
          ⟨lit "C:\\Users\\u\\AppData\\Roaming", .explicitCurrentUserAppData⟩]).exclusions := by
  decide +kernel

end Such.IndexPathPolicy
