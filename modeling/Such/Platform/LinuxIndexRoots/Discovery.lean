import Mathlib.Data.List.Sort
import Such.Platform.LinuxIndexRoots.MountTable

/-! What the discovery offers: one folder for each accessible place it comes across, the home
directory first, the network shares behind it and the other file systems last. -/
namespace Such.LinuxIndexRoots
open ByteText LexicalPath

section Same
variable (host : LinuxHost)

theorem sameDirectory_refl (path : Bytes) : sameDirectory host path path = true := by
  simp only [sameDirectory]
  cases host.weaklyCanonical path <;> simp

theorem sameDirectory_comm (lhs rhs : Bytes) :
    sameDirectory host lhs rhs = sameDirectory host rhs lhs := by
  have swap : ∀ a b : Bytes, (a == b) = (b == a) := fun a b => by
    rw [Bool.eq_iff_iff, beq_iff_eq, beq_iff_eq, eq_comm]
  simp only [sameDirectory]
  rw [host.equivalent_comm lhs rhs]
  cases host.weaklyCanonical lhs <;> cases host.weaklyCanonical rhs <;> dsimp only <;> rw [swap]

/-- Two candidates for one directory. -/
def sameCandidate (a b : IndexRootCandidate) : Bool := sameDirectory host a.path b.path

end Same

/-- The entry a path becomes. -/
def candidateFor (path label : Bytes) (networkShare : Bool) : IndexRootCandidate where
  path := path
  label := if label.isEmpty then pathLabel path else label
  networkShare := networkShare

/-- A place worth offering: the home directory, a mounted file system, or a share right below the
desktop's directory of shares. Only a share may lie where the system keeps its own state. -/
inductive Offered (host : LinuxHost) (config : IndexRootDiscoveryConfig) : IndexRootCandidate → Prop
  | home {path : Bytes} : configuredHome host config = some path → systemMountPath path = false →
      indexRootAccessible host path = true →
      Offered host config (candidateFor path (lit "Home") false)
  | mount {m : Mount} : m ∈ mountTable host config → pseudoFilesystem m.fsType = false →
      systemMountPath m.mountPoint = false → indexRootAccessible host m.mountPoint = true →
      Offered host config (candidateFor m.mountPoint (mountLabel host (configuredHome host config) m)
        (sambaFilesystem m.fsType))
  | share {root name : Bytes} : configuredGvfsRoot host config = some root →
      host.isDirectory root = true → name ∈ host.entries root → startsWith name smbPrefix = true →
      indexRootAccessible host (joinName .posix root name) = true →
      Offered host config (candidateFor (joinName .posix root name) (gvfsSmbLabel name) true)

section Offers
variable (host : LinuxHost) (config : IndexRootDiscoveryConfig)

def eligible (path label : Bytes) (networkShare allowRuntimePath : Bool) :
    Option IndexRootCandidate :=
  if path.isEmpty || (!allowRuntimePath && systemMountPath path) || !indexRootAccessible host path then
    none
  else some (candidateFor path label networkShare)

def mountOffer (home : Option Bytes) (m : Mount) : Option IndexRootCandidate :=
  if pseudoFilesystem m.fsType then none
  else eligible host m.mountPoint (mountLabel host home m) (sambaFilesystem m.fsType) false

def shareOffer (root name : Bytes) : Option IndexRootCandidate :=
  if startsWith name smbPrefix then
    eligible host (joinName .posix root name) (gvfsSmbLabel name) true true
  else none

def homeOffers (home : Option Bytes) : List IndexRootCandidate :=
  (home.bind fun path => eligible host path (lit "Home") false false).toList

def shareOffers (gvfsRoot : Option Bytes) : List IndexRootCandidate :=
  match gvfsRoot with
  | none => []
  | some root => if !host.isDirectory root then [] else (host.entries root).filterMap (shareOffer host root)

def offers : List IndexRootCandidate :=
  let home := configuredHome host config
  homeOffers host home ++ (mountTable host config).filterMap (mountOffer host home) ++
    shareOffers host (configuredGvfsRoot host config)

theorem addCandidate_eq (out : List IndexRootCandidate) (path label : Bytes)
    (networkShare allowRuntimePath : Bool) :
    addCandidate host out path label networkShare allowRuntimePath =
      (eligible host path label networkShare allowRuntimePath).elim out
        (Representatives.enlist (sameCandidate host) out) := by
  simp only [addCandidate, eligible]
  cases path.isEmpty || (!allowRuntimePath && systemMountPath path) with
  | true => rfl
  | false =>
    cases indexRootAccessible host path with
    | false => rfl
    | true => rfl

theorem addMounts_eq (home : Option Bytes) (mounts : List Mount) (out : List IndexRootCandidate) :
    addMounts host home mounts out =
      (mounts.filterMap (mountOffer host home)).foldl (Representatives.enlist (sameCandidate host)) out := by
  rw [List.foldl_filterMap]
  simp only [addMounts]
  congr 1
  funext out m
  simp only [addMount, mountOffer]
  cases pseudoFilesystem m.fsType with
  | true => rfl
  | false =>
    simp only [Bool.false_or, Bool.false_eq_true, if_false]
    cases system : systemMountPath m.mountPoint with
    | true => simp [eligible, system]
    | false =>
      rw [if_neg Bool.false_ne_true, addCandidate_eq]
      cases eligible host m.mountPoint (mountLabel host home m) (sambaFilesystem m.fsType) false <;> rfl

theorem addGvfsSambaCandidates_eq (gvfsRoot : Option Bytes) (out : List IndexRootCandidate) :
    addGvfsSambaCandidates host gvfsRoot out =
      (shareOffers host gvfsRoot).foldl (Representatives.enlist (sameCandidate host)) out := by
  cases gvfsRoot with
  | none => rfl
  | some root =>
    simp only [addGvfsSambaCandidates, shareOffers]
    split
    · rfl
    · rw [List.foldl_filterMap]
      congr 1
      funext out name
      simp only [shareOffer]
      split
      · rw [addCandidate_eq]
        cases eligible host (joinName .posix root name) (gvfsSmbLabel name) true true <;> rfl
      · rfl

/-- What is collected is one representative for each offer, in the order of the offers. -/
theorem collect_eq : collect host config =
    Representatives.gather (sameCandidate host) (offers host config) := by
  simp only [collect, offers, Representatives.gather, List.foldl_append, addMounts_eq,
    addGvfsSambaCandidates_eq]
  cases configuredHome host config with
  | none => rfl
  | some home =>
    simp only [homeOffers, Option.bind_some, addCandidate_eq]
    cases eligible host home (lit "Home") false false <;> rfl

variable {host config}

theorem eligible_eq_some {path label : Bytes} {networkShare allowRuntimePath : Bool}
    {c : IndexRootCandidate} : eligible host path label networkShare allowRuntimePath = some c ↔
      path ≠ [] ∧ (allowRuntimePath = true ∨ systemMountPath path = false) ∧
        indexRootAccessible host path = true ∧ c = candidateFor path label networkShare := by
  simp only [eligible]
  rw [Option.ite_none_left_eq_some]
  simp only [Bool.not_eq_true, Bool.or_eq_false_iff, Bool.and_eq_false_iff, Bool.not_eq_false',
    Option.some.injEq, List.isEmpty_eq_false_iff, and_assoc, eq_comm (a := c)]

theorem systemMountPath_nil : systemMountPath [] = true := rfl

theorem joinName_ne_nil {root name : Bytes} (filled : name ≠ []) : joinName .posix root name ≠ [] := by
  simp only [joinName]
  split_ifs <;> simp [filled]

/-- The offers are the places worth offering. -/
theorem mem_offers {c : IndexRootCandidate} : c ∈ offers host config ↔ Offered host config c := by
  have filled : ∀ {path}, systemMountPath path = false → path ≠ [] := by
    rintro path plain rfl
    cases systemMountPath_nil.symm.trans plain
  simp only [offers, List.mem_append]
  constructor
  · rintro ((home | mount) | share)
    · simp only [homeOffers, Option.mem_toList, Option.bind_eq_some_iff] at home
      obtain ⟨path, known, offer⟩ := home
      obtain ⟨-, plain, accessible, rfl⟩ := eligible_eq_some.1 offer
      exact .home known (plain.resolve_left Bool.false_ne_true) accessible
    · obtain ⟨m, listed, offer⟩ := List.mem_filterMap.1 mount
      simp only [mountOffer] at offer
      split at offer
      · cases offer
      · rename_i real
        obtain ⟨-, plain, accessible, rfl⟩ := eligible_eq_some.1 offer
        exact .mount listed (Bool.not_eq_true _ ▸ real) (plain.resolve_left Bool.false_ne_true) accessible
    · simp only [shareOffers] at share
      split at share
      · cases share
      · rename_i root known
        split at share
        · cases share
        · rename_i directory
          obtain ⟨name, listed, offer⟩ := List.mem_filterMap.1 share
          simp only [shareOffer] at offer
          split at offer
          · rename_i prefixed
            obtain ⟨-, -, accessible, rfl⟩ := eligible_eq_some.1 offer
            exact .share known (by simpa using directory) listed prefixed accessible
          · cases offer
  · intro offered
    cases offered with
    | home known plain accessible =>
      refine .inl (.inl ?_)
      simp only [homeOffers, known, Option.bind_some, Option.mem_toList]
      exact eligible_eq_some.2 ⟨filled plain, .inr plain, accessible, rfl⟩
    | @mount m listed real plain accessible =>
      refine .inl (.inr (List.mem_filterMap.2 ⟨m, listed, ?_⟩))
      simp only [mountOffer, real, Bool.false_eq_true, if_false]
      exact eligible_eq_some.2 ⟨filled plain, .inr plain, accessible, rfl⟩
    | @share root name known directory listed prefixed accessible =>
      refine .inr ?_
      simp only [shareOffers, known, directory, Bool.not_true, Bool.false_eq_true, if_false]
      refine List.mem_filterMap.2 ⟨name, listed, ?_⟩
      have named : name ≠ [] := by
        rintro rfl
        exact absurd prefixed (by decide)
      simp only [shareOffer, prefixed, if_true]
      exact eligible_eq_some.2 ⟨joinName_ne_nil named, .inl rfl, accessible, rfl⟩

end Offers

theorem listedBefore_iff {a b : IndexRootCandidate} : listedBefore a b = true ↔
    a.networkShare = true ∧ b.networkShare = false ∨
      a.networkShare = b.networkShare ∧ a.path < b.path := by
  simp only [listedBefore]
  cases a.networkShare <;> cases b.networkShare <;> simp

/-- Not behind the other one. -/
theorem listedBefore_le_iff {a b : IndexRootCandidate} : (!listedBefore b a) = true ↔
    a.networkShare = true ∧ b.networkShare = false ∨
      a.networkShare = b.networkShare ∧ a.path ≤ b.path := by
  simp only [listedBefore]
  cases a.networkShare <;> cases b.networkShare <;> simp [List.not_lt]

theorem listedBefore_le_trans (a b c : IndexRootCandidate) (first : (!listedBefore b a) = true)
    (second : (!listedBefore c b) = true) : (!listedBefore c a) = true := by
  rw [listedBefore_le_iff] at first second ⊢
  rcases first with ⟨network, local'⟩ | ⟨kind, path⟩ <;>
    rcases second with ⟨network', local''⟩ | ⟨kind', path'⟩
  · exact .inl ⟨network, local''⟩
  · exact .inl ⟨network, kind' ▸ local'⟩
  · exact .inl ⟨kind.trans network', local''⟩
  · exact .inr ⟨kind.trans kind', Std.le_trans path path'⟩

theorem listedBefore_le_total (a b : IndexRootCandidate) :
    (!listedBefore b a || !listedBefore a b) = true := by
  rw [Bool.or_eq_true, listedBefore_le_iff, listedBefore_le_iff]
  rcases Std.le_total (a := a.path) (b := b.path) with path | path
  · cases a.networkShare <;> cases b.networkShare <;> simp [path]
  · cases a.networkShare <;> cases b.networkShare <;> simp [path]

/-- Of two different paths one is listed before the other. -/
theorem listedBefore_of_le {a b : IndexRootCandidate} (le : (!listedBefore b a) = true)
    (differ : a.path ≠ b.path) : listedBefore a b = true := by
  rw [listedBefore_le_iff] at le
  rw [listedBefore_iff]
  exact le.imp id fun ⟨kind, path⟩ => ⟨kind, Std.lt_of_le_of_ne path differ⟩

section Discovered
variable (host : LinuxHost) (config : IndexRootDiscoveryConfig)

/-- No two of the candidates are for one directory. -/
def Apart (candidates : List IndexRootCandidate) : Prop :=
  candidates.Pairwise fun a b => sameDirectory host a.path b.path = false

variable {host config}

theorem Apart.perm {found sorted : List IndexRootCandidate} (apart : Apart host found)
    (perm : found.Perm sorted) : Apart host sorted :=
  (perm.pairwise_iff fun {a b} differ => (sameDirectory_comm host b.path a.path).trans differ).1 apart

theorem sortCandidates_perm (found : List IndexRootCandidate) : (sortCandidates found).Perm found :=
  List.mergeSort_perm found _

theorem sortCandidates_listed {found : List IndexRootCandidate} (apart : Apart host found) :
    (sortCandidates found).Pairwise (listedBefore · ·) := by
  have ordered := List.pairwise_mergeSort listedBefore_le_trans listedBefore_le_total found
  have distinct := apart.perm (sortCandidates_perm found).symm
  refine (ordered.and distinct).imp fun {a b} both => listedBefore_of_le both.1 ?_
  intro same
  have alike := sameDirectory_refl host a.path
  rw [same] at alike
  cases alike.symm.trans (same ▸ both.2)

theorem discover_perm : (discoverWithConfig host config).Perm (collect host config) := by
  simp only [discoverWithConfig]
  split
  · rename_i first second rest found
    rw [found]
    split
    · exact (sortCandidates_perm _).cons first
    · exact sortCandidates_perm _
  · exact List.Perm.refl _

theorem collect_apart : Apart host (collect host config) := by
  rw [collect_eq]
  exact Representatives.foldl_enlist_pairwise List.Pairwise.nil

theorem offered_of_mem {c : IndexRootCandidate} (found : c ∈ discoverWithConfig host config) :
    Offered host config c := by
  have listed := discover_perm.subset found
  rw [collect_eq] at listed
  rcases Representatives.mem_foldl_enlist listed with none | offer
  · cases none
  · exact mem_offers.1 offer

/-- One folder is offered for each place worth offering, and none twice. -/
theorem one_candidate_for_each_place (host : LinuxHost) (config : IndexRootDiscoveryConfig) :
    let found := discoverWithConfig host config
    (∀ c ∈ found, Offered host config c) ∧
      (∀ c, Offered host config c → ∃ r ∈ found, sameDirectory host r.path c.path = true) ∧
      Apart host found := by
  intro found
  refine ⟨fun c => offered_of_mem, fun c offered => ?_, collect_apart.perm discover_perm.symm⟩
  obtain ⟨r, member, same⟩ := @Representatives.exists_same_of_mem _ (sameCandidate host)
    (fun a => sameDirectory_refl host a.path) (offers host config) [] c (mem_offers.2 offered)
  rw [← Representatives.gather, ← collect_eq] at member
  exact ⟨r, discover_perm.symm.subset member, same⟩

/-- An accessible home directory is found first. -/
theorem collect_home {home : Bytes} (known : configuredHome host config = some home)
    (plain : systemMountPath home = false) (accessible : indexRootAccessible host home = true) :
    ∃ rest, collect host config = ⟨home, lit "Home", false⟩ :: rest := by
  have offer : homeOffers host (some home) = [⟨home, lit "Home", false⟩] := by
    have filled : home ≠ [] := by
      rintro rfl
      cases systemMountPath_nil.symm.trans plain
    simp only [homeOffers, Option.bind_some]
    rw [eligible_eq_some.2 ⟨filled, .inr plain, accessible, rfl⟩]
    rfl
  rw [collect_eq]
  simp only [offers, known, offer, List.singleton_append, Representatives.gather]
  obtain ⟨rest, found⟩ := @Representatives.foldl_enlist_extends _ (sameCandidate host)
    ((mountTable host config).filterMap (mountOffer host (some home)) ++
      shareOffers host (configuredGvfsRoot host config))
    (Representatives.enlist (sameCandidate host) [] ⟨home, lit "Home", false⟩)
  exact ⟨rest, found.symm⟩

/-- The home directory is listed first where it can be opened. Behind it, or behind whatever stands
for it, the network shares come before the other file systems, each in byte order of their paths. -/
theorem home_then_shares_then_mounts (host : LinuxHost) (config : IndexRootDiscoveryConfig) :
    let found := discoverWithConfig host config
    (∃ front rest, found = front ++ rest ∧ rest.Pairwise (listedBefore · ·) ∧
      front.length ≤ 1 ∧ ∀ c ∈ front, ∃ home ∈ configuredHome host config,
        sameDirectory host c.path home = true) ∧
    ∀ home ∈ configuredHome host config, systemMountPath home = false →
      indexRootAccessible host home = true → found.head? = some ⟨home, lit "Home", false⟩ := by
  intro found
  have apart : Apart host (collect host config) := collect_apart
  constructor
  · simp only [found, discoverWithConfig]
    split
    · rename_i first second rest collected
      rw [collected] at apart
      split
      · rename_i homely
        obtain ⟨home, known, same⟩ := (Option.any_eq_true _ _).1 homely
        refine ⟨[first], _, rfl, sortCandidates_listed apart.of_cons, le_rfl, fun c member => ?_⟩
        rw [List.mem_singleton.1 member]
        exact ⟨home, known, same⟩
      · exact ⟨[], _, rfl, sortCandidates_listed apart, Nat.zero_le 1, by simp⟩
    · rename_i few
      refine ⟨[], collect host config, rfl, ?_, Nat.zero_le 1, by simp⟩
      match collected : collect host config with
      | [] => exact List.Pairwise.nil
      | [c] => exact List.pairwise_singleton _ c
      | first :: second :: rest => exact absurd collected (few first second rest)
  · intro home known plain accessible
    obtain ⟨rest, collected⟩ := collect_home known plain accessible
    have same : (configuredHome host config).any (sameDirectory host home) = true := by
      rw [known, Option.any_some]
      exact sameDirectory_refl host home
    simp only [found, discoverWithConfig, collected]
    cases rest with
    | nil => rfl
    | cons second rest => simp only [same, if_true, List.head?_cons]

end Discovered
end Such.LinuxIndexRoots
