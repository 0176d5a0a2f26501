import Such.Base.FileSystem

/-! Making directories on the way to a place, and filling a fresh directory with files one
by one. The directory's content is a function of the list of files put into it. -/
namespace FileSystem
open ByteText

section Making
variable {disk made : Disk} {base l q : Loc}

/-- Strictly below `base`, up to `base ++ names`. -/
def OnWay (base names q : Loc) : Prop := base <+: q ∧ q ≠ base ∧ q <+: base ++ names

instance (base names q : Loc) : Decidable (OnWay base names q) :=
  inferInstanceAs (Decidable (_ ∧ _))

def NoFileOnWay (base names : Loc) (disk : Disk) : Prop :=
  ∀ q, OnWay base names q → ∀ content, get disk q ≠ some (.file content)

def makeDirs : Loc → Loc → Disk → Disk
  | _, [], disk => disk
  | base, name :: names, disk =>
    let l := base ++ [name]
    makeDirs l names (if get disk l = none then put l .dir disk else disk)

@[simp] theorem not_onWay_nil : ¬ OnWay base [] q := by
  rintro ⟨above, differ, below⟩
  rw [List.append_nil] at below
  exact differ (below.eq_of_length_le above.length_le)

theorem noFileOnWay_nil (base : Loc) (disk : Disk) : NoFileOnWay base [] disk :=
  fun _ way => absurd way not_onWay_nil

theorem onWay_cons {name : Name} {names : Loc} : OnWay base (name :: names) q ↔
    q = base ++ [name] ∨ OnWay (base ++ [name]) names q := by
  constructor
  · rintro ⟨⟨r, rfl⟩, differ, below⟩
    rw [List.prefix_append_right_inj] at below
    cases r with
    | nil => simp at differ
    | cons first r =>
      rw [List.cons_prefix_cons] at below
      obtain ⟨rfl, below⟩ := below
      by_cases last : r = []
      · exact .inl (by rw [last])
      · refine .inr ⟨⟨r, by simp⟩, ?_, ?_⟩
        · simpa using last
        · rw [List.append_assoc, List.prefix_append_right_inj, List.singleton_append,
            List.cons_prefix_cons]
          exact ⟨rfl, below⟩
  · rintro (rfl | ⟨⟨r, rfl⟩, differ, below⟩)
    · refine ⟨List.prefix_append _ _, by simp, ?_⟩
      rw [List.prefix_append_right_inj, List.cons_prefix_cons]
      exact ⟨rfl, List.nil_prefix⟩
    · refine ⟨⟨name :: r, by simp⟩, by simp, ?_⟩
      simpa using below

theorem get_makeDirs (names : Loc) : get (makeDirs base names disk) q =
    if get disk q = none ∧ OnWay base names q then some .dir else get disk q := by
  induction names generalizing base disk with
  | nil => simp [makeDirs]
  | cons name names ih =>
    have below : base ++ [name] ≠ [] := by simp
    simp only [makeDirs, ih, onWay_cons]
    by_cases here : q = base ++ [name]
    · subst here
      by_cases absent : get disk (base ++ [name]) = none
      · simp [absent, get_put .dir below]
      · simp [absent]
    · have other : get (if get disk (base ++ [name]) = none then put (base ++ [name]) .dir disk
          else disk) q = get disk q := by
        split
        · rw [get_put .dir below, if_neg here]
        · rfl
      simp [other, here]

theorem noFileOnWay_cons {name : Name} {names : Loc} : NoFileOnWay base (name :: names) disk ↔
    (∀ content, get disk (base ++ [name]) ≠ some (.file content)) ∧
      NoFileOnWay (base ++ [name]) names disk := by
  simp only [NoFileOnWay, onWay_cons]
  constructor
  · intro none
    exact ⟨fun content => none _ (.inl rfl) content, fun q way => none q (.inr way)⟩
  · rintro ⟨here, rest⟩ q (rfl | way)
    · exact here
    · exact rest q way

theorem noFileOnWay_put {names : Loc} (below : l ≠ []) (absent : get disk l = none) :
    NoFileOnWay base names (put l .dir disk) ↔ NoFileOnWay base names disk := by
  simp only [NoFileOnWay, get_put .dir below]
  refine forall_congr' fun q => imp_congr_right fun _ => forall_congr' fun content => ?_
  by_cases here : q = l
  · simp [here, absent]
  · simp [here]

/-- Names are entered one after another unless a file is in the way. -/
theorem foldlM_makeStep_names (names : Loc) :
    (names.map Name.bytes).foldlM makeStep (base, disk) = some (l, made) ↔
      NoFileOnWay base names disk ∧ l = base ++ names ∧ made = makeDirs base names disk := by
  induction names generalizing base disk with
  | nil =>
    simp only [List.map_nil, List.foldlM_nil, pure, Option.some.injEq, Prod.mk.injEq, makeDirs,
      List.append_nil, NoFileOnWay, not_onWay_nil, false_implies, implies_true, true_and]
    exact and_congr eq_comm eq_comm
  | cons name names ih =>
    have below : base ++ [name] ≠ [] := by simp
    rw [List.map_cons, List.foldlM_cons, noFileOnWay_cons, makeDirs]
    simp only [makeStep, Name.ofBytes?_bytes]
    cases found : get disk (base ++ [name]) with
    | none =>
      simp only [Option.bind_eq_bind, Option.bind_some, ih, noFileOnWay_put below found]
      simp
    | some node =>
      cases node with
      | dir =>
        simp only [Option.bind_eq_bind, Option.bind_some, ih]
        simp
      | file content => simp

theorem foldlM_makeStep_made (names : Loc) :
    ((names.map Name.bytes).foldlM makeStep (base, disk)).map (·.2) = some made ↔
      NoFileOnWay base names disk ∧ made = makeDirs base names disk := by
  simp only [Option.map_eq_some_iff, Prod.exists, foldlM_makeStep_names]
  constructor
  · rintro ⟨_, _, ⟨free, rfl, rfl⟩, rfl⟩
    exact ⟨free, rfl⟩
  · rintro ⟨free, rfl⟩
    exact ⟨_, _, ⟨free, rfl, rfl⟩, rfl⟩

/-- The last component of a directory to be made may be one that no entry can have. -/
theorem foldlM_makeStep_tail (names : Loc) {tail : List Bytes} (short : tail.length ≤ 1) :
    ((names.map Name.bytes ++ tail).foldlM makeStep (base, disk)).map (·.2) = some made ↔
      NoFileOnWay base (names ++ tail.filterMap Name.ofBytes?) disk ∧
        made = makeDirs base (names ++ tail.filterMap Name.ofBytes?) disk := by
  match tail, short with
  | [], _ =>
    rw [List.append_nil, List.filterMap_nil, List.append_nil]
    exact foldlM_makeStep_made names
  | [last], _ =>
    cases named : Name.ofBytes? last with
    | none =>
      have stays : ((names.map Name.bytes ++ [last]).foldlM makeStep (base, disk)).map (·.2) =
          ((names.map Name.bytes).foldlM makeStep (base, disk)).map (·.2) := by
        simp only [List.foldlM_append, List.foldlM_cons, List.foldlM_nil, makeStep, named]
        cases (names.map Name.bytes).foldlM makeStep (base, disk) <;> rfl
      rw [stays, List.filterMap_cons_none named, List.filterMap_nil, List.append_nil]
      exact foldlM_makeStep_made names
    | some name =>
      have whole : names.map Name.bytes ++ [last] = (names ++ [name]).map Name.bytes := by
        simp [Name.bytes_of_ofBytes? named]
      rw [whole, List.filterMap_cons_some named, List.filterMap_nil]
      exact foldlM_makeStep_made (names ++ [name])

theorem createDirectories_eq_some {path : Bytes} {names : Loc} {tail : List Bytes}
    (filled : cstr path ≠ []) (parts : components (cstr path) = names.map Name.bytes ++ tail)
    (short : tail.length ≤ 1) : createDirectories path disk = some made ↔
      NoFileOnWay [] (names ++ tail.filterMap Name.ofBytes?) disk ∧
        made = makeDirs [] (names ++ tail.filterMap Name.ofBytes?) disk := by
  rw [createDirectories, if_neg (by simpa using filled), parts]
  exact foldlM_makeStep_tail names short

/-- Everything on a finished way is a directory. -/
theorem get_makeDirs_above {names : Loc} (free : NoFileOnWay [] names disk) (way : q <+: names) :
    get (makeDirs [] names disk) q = some .dir := by
  by_cases root : q = []
  · simp [root]
  · have on : OnWay [] names q := ⟨List.nil_prefix, root, way⟩
    rw [get_makeDirs]
    cases found : get disk q with
    | none => simp [on]
    | some node =>
      cases node with
      | dir => simp
      | file content => exact absurd found (free q on content)

end Making

section Filling

/-- No place lies below another one. -/
def Compatible (places : List Loc) : Prop := ∀ a ∈ places, ∀ b ∈ places, a <+: b → a = b

instance (places : List Loc) : Decidable (Compatible places) :=
  inferInstanceAs (Decidable (∀ _ ∈ _, _))

theorem Compatible.mono {places more : List Loc} (compatible : Compatible more)
    (part : places ⊆ more) : Compatible places :=
  fun a ha b hb => compatible a (part ha) b (part hb)

/-- What a directory holds at a place after these files were put into it in turn. -/
def stagedNode (files : List (Loc × Bytes)) (r : Loc) : Option Node :=
  match files.reverse.lookup r with
  | some content => some (.file content)
  | none => if r = [] ∨ ∃ e ∈ files, r <+: e.1 then some .dir else none

/-- The tree `disk` differs from `start` only by the files put below `top`. -/
structure Staging (start : Disk) (top : Loc) (files : List (Loc × Bytes)) (disk : Disk) : Prop where
  named : ∀ e ∈ files, e.1 ≠ []
  inside : ∀ r, get disk (top ++ r) = stagedNode files r
  outside : ∀ q, ¬ top <+: q → get disk q = get start q

variable {start disk disk' : Disk} {top ws : Loc} {files : List (Loc × Bytes)} {last : Name}
  {content : Bytes}

theorem lookup_reverse_isSome {r : Loc} : (∃ c, files.reverse.lookup r = some c) ↔
    ∃ e ∈ files, e.1 = r := by
  constructor
  · rintro ⟨c, found⟩
    obtain ⟨before, after, split, -⟩ := List.lookup_eq_some_iff.mp found
    have member : (r, c) ∈ files.reverse := by simp [split]
    exact ⟨(r, c), List.mem_reverse.mp member, rfl⟩
  · rintro ⟨e, member, rfl⟩
    cases found : files.reverse.lookup e.1 with
    | some c => exact ⟨c, rfl⟩
    | none =>
      have := List.lookup_eq_none_iff.mp found e (List.mem_reverse.mpr member)
      simp at this

theorem stagedNode_eq_file {r : Loc} :
    stagedNode files r = some (.file content) ↔ files.reverse.lookup r = some content := by
  simp only [stagedNode]
  cases files.reverse.lookup r with
  | some c => simp
  | none => simp

theorem stagedNode_nil_place (named : ∀ e ∈ files, e.1 ≠ []) : stagedNode files [] = some .dir := by
  simp only [stagedNode]
  cases found : files.reverse.lookup [] with
  | none => simp
  | some c =>
    obtain ⟨e, member, empty⟩ := lookup_reverse_isSome.mp ⟨c, found⟩
    exact absurd empty (named e member)

theorem stagedNode_append (r : Loc) : stagedNode (files ++ [(ws ++ [last], content)]) r =
    if r = ws ++ [last] then some (.file content)
    else if stagedNode files r = none ∧ r <+: ws then some .dir
    else stagedNode files r := by
  by_cases here : r = ws ++ [last]
  · simp [stagedNode, here]
  · have differ : (r == ws ++ [last]) = false := by simpa using here
    have shorter : r <+: ws ++ [last] ↔ r <+: ws := by
      rw [List.prefix_concat_iff]
      simp [here]
    have lookup : (files ++ [(ws ++ [last], content)]).reverse.lookup r =
        files.reverse.lookup r := by
      simp [List.lookup_cons, differ]
    rw [if_neg here]
    cases found : files.reverse.lookup r with
    | some c =>
      rw [stagedNode_eq_file.mpr found, stagedNode_eq_file.mpr (lookup.trans found)]
      simp
    | none =>
      have before : stagedNode files r =
          if r = [] ∨ ∃ e ∈ files, r <+: e.1 then some .dir else none := by
        simp only [stagedNode]
        rw [found]
      have after : stagedNode (files ++ [(ws ++ [last], content)]) r =
          if (r = [] ∨ ∃ e ∈ files, r <+: e.1) ∨ r <+: ws then some .dir else none := by
        simp only [stagedNode]
        rw [lookup, found]
        refine if_congr ?_ rfl rfl
        simp [or_and_right, exists_or, shorter, or_assoc]
      rw [before, after]
      by_cases inside : r = [] ∨ ∃ e ∈ files, r <+: e.1
      · rw [if_pos (.inl inside), if_pos inside]
        simp
      · rw [if_neg inside]
        by_cases below : r <+: ws
        · rw [if_pos (.inr below), if_pos ⟨rfl, below⟩]
        · rw [if_neg (not_or.mpr ⟨inside, below⟩), if_neg fun both => below both.2]

/-- The start of a staging run: a directory just made. -/
theorem Staging.fresh (empty : ∀ r, get start (top ++ r) = if r = [] then some .dir else none) :
    Staging start top [] start := by
  refine ⟨by simp, fun r => ?_, fun _ _ => rfl⟩
  rw [empty]
  simp [stagedNode]

theorem Staging.noFileOnWay_iff (staging : Staging start top files disk)
    (way : ∀ p, p <+: top → get start p = some .dir) {names : Loc} :
    NoFileOnWay [] (top ++ names) disk ↔ ∀ e ∈ files, ¬ e.1 <+: names := by
  constructor
  · intro free e member above
    obtain ⟨c, found⟩ := lookup_reverse_isSome.mpr ⟨e, member, rfl⟩
    have file : get disk (top ++ e.1) = some (.file c) := by
      rw [staging.inside, stagedNode_eq_file.mpr found]
    refine free (top ++ e.1) ⟨List.nil_prefix, ?_, ?_⟩ c file
    · simp [staging.named e member]
    · rwa [List.nil_append, List.prefix_append_right_inj]
  · rintro clear q ⟨-, -, below⟩ c file
    rcases List.prefix_or_prefix_of_prefix below (List.prefix_append top names) with above | ⟨r, rfl⟩
    · by_cases whole : top <+: q
      · obtain rfl := above.eq_of_length_le whole.length_le
        have dir := staging.inside []
        rw [List.append_nil, stagedNode_nil_place staging.named, file] at dir
        cases dir
      · rw [staging.outside q whole, way q above] at file
        cases file
    · rw [staging.inside, stagedNode_eq_file] at file
      obtain ⟨e, member, rfl⟩ := lookup_reverse_isSome.mp ⟨c, file⟩
      rw [List.nil_append, List.prefix_append_right_inj] at below
      exact clear e member below

theorem Staging.get_makeDirs (staging : Staging start top files disk) (r : Loc) :
    get (makeDirs [] (top ++ ws) disk) (top ++ r) =
      if stagedNode files r = none ∧ r <+: ws then some .dir else stagedNode files r := by
  rw [FileSystem.get_makeDirs, staging.inside]
  by_cases absent : stagedNode files r = none
  · have below : r ≠ [] := by
      rintro rfl
      rw [stagedNode_nil_place staging.named] at absent
      cases absent
    simp [absent, OnWay, List.prefix_append_right_inj, below]
  · simp [absent]

/-- A file can be put at a place exactly when no file is above or below it. -/
theorem Staging.place_iff (staging : Staging start top files disk)
    (way : ∀ p, p <+: top → get start p = some .dir) (compatible : Compatible (files.map (·.1))) :
    (NoFileOnWay [] (top ++ ws) disk ∧
        get (makeDirs [] (top ++ ws) disk) (top ++ (ws ++ [last])) ≠ some .dir) ↔
      Compatible (files.map (·.1) ++ [ws ++ [last]]) := by
  have longer : ¬ ws ++ [last] <+: ws := fun below => by
    have := below.length_le
    simp at this
  rw [staging.noFileOnWay_iff way, staging.get_makeDirs]
  simp only [longer, and_false, if_false]
  constructor
  · rintro ⟨clear, free⟩ a ha b hb above
    rw [List.mem_append, List.mem_singleton] at ha hb
    rcases ha with ha | rfl <;> rcases hb with hb | rfl
    · exact compatible a ha b hb above
    · obtain ⟨e, member, rfl⟩ := List.mem_map.mp ha
      rcases List.prefix_concat_iff.mp above with same | shorter
      · exact same
      · exact absurd shorter (clear e member)
    · obtain ⟨e, member, rfl⟩ := List.mem_map.mp hb
      by_contra differ
      have missing : ∀ c, files.reverse.lookup (ws ++ [last]) ≠ some c := by
        intro c found
        obtain ⟨e', member', same⟩ := lookup_reverse_isSome.mp ⟨c, found⟩
        have := compatible e'.1 (List.mem_map_of_mem member') e.1 hb (same ▸ above)
        exact differ (same ▸ this)
      refine free ?_
      simp only [stagedNode]
      rw [Option.eq_none_iff_forall_ne_some.mpr missing]
      exact if_pos (.inr ⟨e, member, above⟩)
    · rfl
  · intro all
    have old : ∀ e ∈ files, e.1 ∈ files.map (·.1) ++ [ws ++ [last]] := fun e member =>
      List.mem_append_left _ (List.mem_map_of_mem member)
    have new : ws ++ [last] ∈ files.map (·.1) ++ [ws ++ [last]] := by simp
    constructor
    · intro e member above
      have same := all e.1 (old e member) _ new (above.trans (List.prefix_append _ _))
      exact longer (same ▸ above)
    · intro dir
      simp only [stagedNode] at dir
      split at dir
      · cases dir
      · rename_i missing
        split at dir
        · rename_i inside
          rcases inside with empty | ⟨e, member, below⟩
          · simp at empty
          · have same := all _ new e.1 (old e member) below
            obtain ⟨c, found⟩ := lookup_reverse_isSome.mpr ⟨e, member, same.symm⟩
            rw [missing] at found
            cases found
        · cases dir

theorem Staging.place (staging : Staging start top files disk)
    (way : ∀ p, p <+: top → get start p = some .dir)
    (placed : ∀ q, get disk' q = if q = top ++ (ws ++ [last]) then some (.file content)
      else get (makeDirs [] (top ++ ws) disk) q) :
    Staging start top (files ++ [(ws ++ [last], content)]) disk' := by
  refine ⟨?_, fun r => ?_, fun q apart => ?_⟩
  · intro e member
    rcases List.mem_append.mp member with old | new
    · exact staging.named e old
    · rw [List.mem_singleton.mp new]
      simp
  · rw [placed, stagedNode_append, staging.get_makeDirs]
    simp
  · have elsewhere : q ≠ top ++ (ws ++ [last]) := by
      rintro rfl
      exact apart (List.prefix_append _ _)
    rw [placed, if_neg elsewhere, FileSystem.get_makeDirs, staging.outside q apart]
    split
    · rename_i made
      obtain ⟨absent, -, -, below⟩ := made
      rcases List.prefix_or_prefix_of_prefix below (List.prefix_append top ws) with above | under
      · rw [way q above] at absent
        cases absent
      · exact absurd under apart
    · rfl

end Filling
end FileSystem
