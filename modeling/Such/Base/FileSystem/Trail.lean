import Such.Base.FileSystem.Places

/-! The places at which making directories adds something, in order and also when a file in
the way stops it, and what a tree gains between two points. -/
namespace FileSystem
open ByteText

section Making

/-- The directories that entering these components makes. A step makes the place it enters
when that place is another one afterwards. -/
def makeTouches : Loc × Disk → List Bytes → List Loc
  | _, [] => []
  | state, component :: rest =>
    match makeStep state component with
    | none => []
    | some next =>
      (if get next.2 next.1 = get state.2 next.1 then [] else [next.1]) ++ makeTouches next rest

def createTouches (path : Bytes) (disk : Disk) : List Loc :=
  if (cstr path).isEmpty then [] else makeTouches ([], disk) (components (cstr path))

/-- Everything that entering these components leads through is a directory. -/
def Walkable (disk : Disk) (l : Loc) (parts : List Bytes) : Prop :=
  ∀ lead, lead <+: parts → get disk (lead.foldl enter l) = some .dir

/-- What a leading run of a path's components names; without `..` these are the places above
the one the path names. -/
def Leads (path : Bytes) (q : Loc) : Prop :=
  ∃ lead, lead <+: components (cstr path) ∧ q = lead.foldl enter []

def StrictlyBelow (top q : Loc) : Prop := top <+: q ∧ q ≠ top

variable {disk made : Disk} {l l' q : Loc} {component : Bytes} {parts : List Bytes}

theorem enter_name (l : Loc) (name : Name) : enter l name.bytes = l ++ [name] := by
  rw [enter, Name.ofBytes?_bytes]

/-- A step goes up, or to a directory, or makes one. -/
theorem makeStep_cases (done : makeStep (l, disk) component = some (l', made)) :
    l' = enter l component ∧ ((l' <+: l ∧ made = disk) ∨
      ∃ name, component = Name.bytes name ∧ l' = l ++ [name] ∧
        ((get disk l' = some .dir ∧ made = disk) ∨
          (get disk l' = none ∧ made = put l' .dir disk))) := by
  simp only [makeStep] at done
  cases named : Name.ofBytes? component with
  | none =>
    rw [named] at done
    cases done
    refine ⟨rfl, .inl ⟨?_, rfl⟩⟩
    rw [enter, named]
    dsimp only
    split
    · exact List.dropLast_prefix l
    · exact List.prefix_refl l
  | some name =>
    obtain rfl := Name.bytes_of_ofBytes? named
    rw [named] at done
    dsimp only at done
    rw [enter_name]
    cases found : get disk (l ++ [name]) with
    | none =>
      rw [found] at done
      cases done
      exact ⟨rfl, .inr ⟨name, rfl, rfl, .inr ⟨found, rfl⟩⟩⟩
    | some node =>
      rw [found] at done
      cases node with
      | dir =>
        cases done
        exact ⟨rfl, .inr ⟨name, rfl, rfl, .inl ⟨found, rfl⟩⟩⟩
      | file content => cases done

/-- A step either leaves the tree alone or adds one directory under a name. -/
theorem makeStep_change (done : makeStep (l, disk) component = some (l', made)) :
    made = disk ∨ ∃ name, component = Name.bytes name ∧ l' = l ++ [name] ∧
      get disk l' = none ∧ made = put l' .dir disk := by
  obtain ⟨-, ⟨-, same⟩ | ⟨name, named, entered, ⟨-, same⟩ | ⟨absent, same⟩⟩⟩ := makeStep_cases done
  · exact .inl same
  · exact .inl same
  · exact .inr ⟨name, named, entered, absent, same⟩

/-- A place is made under a name on the way, where nothing was. -/
theorem makeTouches_lead (touched : q ∈ makeTouches (l, disk) parts) : ∃ lead name,
    lead ++ [Name.bytes name] <+: parts ∧ q = lead.foldl enter l ++ [name] ∧ get disk q = none := by
  induction parts generalizing l disk with
  | nil => cases touched
  | cons component rest ih =>
    simp only [makeTouches] at touched
    cases done : makeStep (l, disk) component with
    | none =>
      rw [done] at touched
      cases touched
    | some next =>
      obtain ⟨l', made⟩ := next
      rw [done] at touched
      have change := makeStep_change done
      rcases List.mem_append.mp touched with here | later
      · rcases change with rfl | ⟨name, rfl, rfl, absent, rfl⟩
        · simp at here
        · split at here
          · cases here
          · rw [List.mem_singleton.mp here]
            exact ⟨[], name, by simp, rfl, absent⟩
      · obtain ⟨lead, name, onWay, rfl, absent⟩ := ih later
        refine ⟨component :: lead, name, by simpa using onWay, ?_, ?_⟩
        · rw [(makeStep_cases done).1, List.foldl_cons]
        · rcases change with rfl | ⟨_, rfl, rfl, _, rfl⟩
          · exact absent
          · rw [get_put .dir (by simp)] at absent
            split at absent
            · cases absent
            · exact absent

theorem get_foldlM_makeStep (done : parts.foldlM makeStep (l, disk) = some (l', made)) (q : Loc) :
    get made q = if q ∈ makeTouches (l, disk) parts then some .dir else get disk q := by
  induction parts generalizing l disk with
  | nil =>
    cases done
    simp [makeTouches]
  | cons component rest ih =>
    obtain ⟨⟨next, tree⟩, step, onward⟩ := Option.bind_eq_some_iff.mp done
    rw [ih onward]
    simp only [makeTouches, step, List.mem_append]
    rcases makeStep_change step with rfl | ⟨name, rfl, rfl, absent, rfl⟩
    · simp
    · simp only [get_put .dir (show l ++ [name] ≠ [] by simp), absent, if_true, reduceCtorEq, if_false,
        List.mem_singleton]
      by_cases here : q = l ++ [name] <;> simp [here]

/-- Every place above stays a directory as the way goes on. -/
theorem makeStep_walked (done : makeStep (l, disk) component = some (l', made))
    (walked : ∀ p, p <+: l → get disk p = some .dir) : ∀ p, p <+: l' → get made p = some .dir := by
  obtain ⟨-, ⟨up, rfl⟩ | ⟨name, -, rfl, ⟨dir, rfl⟩ | ⟨-, rfl⟩⟩⟩ := makeStep_cases done
  · exact fun p above => walked p (above.trans up)
  · intro p above
    rcases List.prefix_concat_iff.mp above with rfl | above
    · exact dir
    · exact walked p above
  · intro p above
    rw [get_put .dir (by simp)]
    rcases List.prefix_concat_iff.mp above with rfl | above
    · exact if_pos rfl
    · rw [walked p above, ite_self]

/-- A finished way leads through directories only. -/
theorem walkable_of_foldlM (done : parts.foldlM makeStep (l, disk) = some (l', made))
    (walked : ∀ p, p <+: l → get disk p = some .dir) : Walkable made l parts := by
  intro lead above
  induction lead generalizing parts l disk with
  | nil => exact (get_foldlM_makeStep done l).trans (by rw [walked l (List.prefix_refl l), ite_self])
  | cons component lead ih =>
    obtain ⟨rest, rfl⟩ := above
    obtain ⟨⟨next, tree⟩, step, onward⟩ := Option.bind_eq_some_iff.mp done
    rw [List.foldl_cons, ← (makeStep_cases step).1]
    exact ih onward (makeStep_walked step walked) (List.prefix_append _ _)

theorem makeStep_of_dir (dir : get disk (enter l component) = some .dir) :
    makeStep (l, disk) component = some (enter l component, disk) := by
  simp only [makeStep]
  cases named : Name.ofBytes? component with
  | none => rfl
  | some name =>
    rw [← Name.bytes_of_ofBytes? named, enter_name] at dir ⊢
    simp only [dir]

/-- Where everything is a directory nothing is made. -/
theorem makeTouches_append (walkable : Walkable disk l parts) (more : List Bytes) :
    makeTouches (l, disk) (parts ++ more) = makeTouches (parts.foldl enter l, disk) more := by
  induction parts generalizing l with
  | nil => rfl
  | cons component rest ih =>
    have onward : Walkable disk (enter l component) rest := fun lead above =>
      walkable (component :: lead) (List.cons_prefix_cons.mpr ⟨rfl, above⟩)
    rw [List.cons_append, makeTouches, makeStep_of_dir (onward [] List.nil_prefix)]
    dsimp only
    rw [if_pos rfl, List.nil_append, ih onward, List.foldl_cons]

/-- Names, and one component more, lead strictly below. -/
theorem makeTouches_below {ws : Loc} {tail : List Bytes} (short : tail.length ≤ 1)
    (touched : q ∈ makeTouches (l, disk) (ws.map Name.bytes ++ tail)) : StrictlyBelow l q := by
  obtain ⟨lead, name, onWay, rfl, -⟩ := makeTouches_lead touched
  have above : lead <+: ws.map Name.bytes := by
    refine List.prefix_of_prefix_length_le ((List.prefix_append _ _).trans onWay)
      (List.prefix_append _ _) ?_
    have size := onWay.length_le
    simp only [List.length_append, List.length_map, List.length_singleton] at size ⊢
    omega
  obtain ⟨ws', -, rfl⟩ := List.prefix_map_iff.mp above
  rw [foldl_enter_names, List.append_assoc]
  exact ⟨List.prefix_append _ _, by simp⟩

theorem createDirectories_eq_some_iff {path : Bytes} : createDirectories path disk = some made ↔
    (cstr path).isEmpty = false ∧
      ∃ l, (components (cstr path)).foldlM makeStep ([], disk) = some (l, made) := by
  simp only [createDirectories]
  split
  · rename_i empty
    simp [empty]
  · rename_i filled
    simp [Option.map_eq_some_iff, filled]

theorem get_createDirectories {path : Bytes} (done : createDirectories path disk = some made)
    (q : Loc) : get made q = if q ∈ createTouches path disk then some .dir else get disk q := by
  obtain ⟨filled, l, done⟩ := createDirectories_eq_some_iff.mp done
  rw [get_foldlM_makeStep done, createTouches, filled, if_neg Bool.false_ne_true]

theorem walkable_of_createDirectories {path : Bytes}
    (done : createDirectories path disk = some made) :
    Walkable made [] (components (cstr path)) := by
  obtain ⟨-, l, done⟩ := createDirectories_eq_some_iff.mp done
  refine walkable_of_foldlM done fun p above => ?_
  rw [List.prefix_nil.mp above, get_root]

theorem Walkable.locate {path : Bytes} (walkable : Walkable disk [] (components (cstr path))) :
    get disk (locate path) = some .dir :=
  walkable _ (List.prefix_refl _)

theorem enter_cases (l : Loc) (component : Bytes) :
    enter l component <+: l ∨ ∃ name, enter l component = l ++ [name] := by
  simp only [enter]
  split
  · rename_i name _
    exact .inr ⟨name, rfl⟩
  · refine .inl ?_
    split
    · exact List.dropLast_prefix l
    · exact List.prefix_refl l

/-- A walked way has directories above its end too, dot links or not. -/
theorem Walkable.above (walkable : Walkable disk [] parts) {q : Loc}
    (above : q <+: parts.foldl enter []) : get disk q = some .dir := by
  induction parts using List.reverseRecOn with
  | nil => rw [List.prefix_nil.mp above, get_root]
  | append_singleton parts component ih =>
    have shorter : Walkable disk [] parts := fun lead part =>
      walkable lead (part.trans (List.prefix_append _ _))
    rw [List.foldl_concat] at above
    rcases enter_cases (parts.foldl enter []) component with up | ⟨name, down⟩
    · exact ih shorter (above.trans up)
    · rw [down] at above
      rcases List.prefix_concat_iff.mp above with rfl | above
      · rw [← down]
        simpa only [List.foldl_concat] using walkable _ (List.prefix_refl _)
      · exact ih shorter above

theorem mem_createTouches {path : Bytes} (touched : q ∈ createTouches path disk) :
    Leads path q ∧ get disk q = none := by
  simp only [createTouches] at touched
  split at touched
  · cases touched
  · obtain ⟨lead, name, onWay, rfl, absent⟩ := makeTouches_lead touched
    exact ⟨⟨_, onWay, by rw [List.foldl_append, List.foldl_cons, enter_name, List.foldl_nil]⟩, absent⟩

theorem createDirectories_keeps {path : Bytes} (done : createDirectories path disk = some made)
    (present : get disk q ≠ none) : get made q = get disk q := by
  rw [get_createDirectories done, if_neg fun touched => present (mem_createTouches touched).2]

theorem closed_createDirectories {path : Bytes} (closed : Closed disk)
    (done : createDirectories path disk = some made) : Closed made := by
  intro l x present
  by_cases before : get disk (l ++ [x]) = none
  · rw [get_createDirectories done, before] at present
    split at present
    · rename_i touched
      obtain ⟨⟨lead, onWay, place⟩, -⟩ := mem_createTouches touched
      have walkable : Walkable made [] lead := fun shorter part =>
        walkable_of_createDirectories done shorter (part.trans onWay)
      apply walkable.above
      rw [← place]
      exact List.prefix_append _ _
    · exact absurd rfl present
  · have parent := closed l x before
    rw [createDirectories_keeps done (by simp [parent]), parent]

/-- A path without `..` leads through the places above the one it names. -/
theorem Leads.above {path : Bytes} (leads : Leads path q)
    (down : ∀ c ∈ components (cstr path), c ≠ [46, 46]) : q <+: FileSystem.locate path := by
  obtain ⟨lead, ⟨rest, whole⟩, rfl⟩ := leads
  rw [FileSystem.locate, ← whole, List.foldl_append]
  have stays : ∀ (parts : List Bytes) (l : Loc), (∀ c ∈ parts, c ≠ [46, 46]) →
      l <+: parts.foldl enter l := by
    intro parts
    induction parts with
    | nil => exact fun l _ => List.prefix_refl l
    | cons c parts ih =>
      intro l down
      simp only [List.mem_cons, forall_eq_or_imp] at down
      refine List.IsPrefix.trans ?_ (ih (enter l c) down.2)
      simp only [enter]
      split
      · exact List.prefix_append _ _
      · rw [if_neg down.1]
  exact stays rest _ fun c member => down c (whole ▸ List.mem_append_right _ member)

end Making

section BelowPath

variable {temp rel : Bytes} {disk : Disk} {l q : Loc}

/-- A relative path is put behind a slash, whether or not the first path ends with one. -/
theorem exists_append_slash (filled : temp ≠ []) (relative : isAbsolute rel = false) :
    ∃ v, append temp rel = v ++ 47 :: rel ∧ (0 ∈ v ↔ 0 ∈ temp) ∧
      components (cstr v) = components (cstr temp) := by
  simp only [append]
  rw [relative, Bool.false_or, if_neg (by simpa using filled)]
  split
  · rename_i last
    obtain ⟨v, rfl⟩ := List.getLast?_eq_some_iff.mp last
    refine ⟨v, by simp, by simp, ?_⟩
    by_cases zero : 0 ∈ v
    · rw [cstr_append_of_mem zero]
    · rw [cstr_append_of_notMem zero, cstr_of_notMem zero, cstr_cons, if_neg (by decide),
        components_append_slash]
      simp [components, cstr]
  · exact ⟨temp, rfl, Iff.rfl, rfl⟩

/-- The directory of a relative path without dot links: the components of the first path, then
names, then at most one component that a NUL has cut off. -/
theorem components_parent_below (filled : temp ≠ []) (relative : isAbsolute rel = false)
    (dots : ∀ c ∈ components rel, c ≠ [46] ∧ c ≠ [46, 46]) :
    ∃ (ws : Loc) (tail : List Bytes), tail.length ≤ 1 ∧
      components (cstr (parentPath (append temp rel))) =
        components (cstr temp) ++ (ws.map Name.bytes ++ tail) := by
  obtain ⟨v, whole, zero, parts⟩ := exists_append_slash filled relative
  obtain ⟨ws, shape⟩ := exists_stem_names dots
  rw [whole, components_cstr_parentPath, ← parts, stem_append_slash]
  by_cases cut : 0 ∈ v
  · rw [if_pos (List.mem_append_left _ cut), cstr_append_of_mem cut]
    exact ⟨[], [], by simp, by simp⟩
  · rw [cstr_of_notMem cut]
    by_cases inner : 0 ∈ stem rel
    · rw [if_pos (by simp [inner]), cstr_append_of_notMem cut, cstr_cons, if_neg (by decide),
        components_append_slash, components_eq (cstr rel), shape]
      exact ⟨ws, _, by split <;> simp, rfl⟩
    · rw [if_neg (by simp [cut, inner]), components_append_slash, ← stem_cstr inner, shape]
      exact ⟨ws, [], by simp, by simp⟩

/-- A file opened at a relative path without dot links is strictly below. -/
theorem openWrite_strictlyBelow (filled : temp ≠ []) (relative : isAbsolute rel = false)
    (dots : ∀ c ∈ components rel, c ≠ [46] ∧ c ≠ [46, 46])
    (dir : get disk (locate temp) = some .dir) (opened : openWrite disk (append temp rel) = some l) :
    StrictlyBelow (locate temp) l := by
  obtain ⟨v, whole, zero, parts⟩ := exists_append_slash filled relative
  obtain ⟨ws, shape⟩ := exists_stem_names dots
  obtain ⟨name, -, place, place', -, free⟩ := openWrite_eq_some.mp opened
  rw [whole] at place place'
  by_cases cut : 0 ∈ v
  · -- the path ends at the NUL, so it names the directory itself
    rw [FileSystem.locate, cstr_append_of_mem cut, parts, ← FileSystem.locate] at place'
    exact absurd (place' ▸ dir) free
  · rw [cstr_append_of_notMem cut, cstr_cons, if_neg (by decide), stem_append_slash,
      components_append_slash, ← cstr_of_notMem cut, parts, shape, List.foldl_append,
      ← FileSystem.locate, foldl_enter_names, List.append_assoc] at place
    rw [place]
    exact ⟨List.prefix_append _ _, by simp⟩

end BelowPath

section Gains

/-- Whatever is in the second tree was in the first, or is at one of these places. -/
def GainsOnly (touches : List Loc) (start after : Disk) : Prop :=
  ∀ q node, get after q = some node → get start q = some node ∨ q ∈ touches

variable {touches more : List Loc} {start disk made after : Disk} {l : Loc} {path : Bytes}

theorem GainsOnly.refl (touches : List Loc) (start : Disk) : GainsOnly touches start start :=
  fun _ _ => .inl

theorem GainsOnly.mono (gains : GainsOnly touches start after) (part : touches ⊆ more) :
    GainsOnly more start after :=
  fun q node found => (gains q node found).imp_right fun member => part member

theorem GainsOnly.trans (first : GainsOnly touches start disk) (second : GainsOnly more disk after) :
    GainsOnly (touches ++ more) start after := by
  intro q node found
  rcases second q node found with before | new
  · exact (first q node before).imp_right (List.mem_append_left more)
  · exact .inr (List.mem_append_right touches new)

theorem GainsOnly.put (gains : GainsOnly touches start disk) (member : l ∈ touches) (below : l ≠ [])
    (node : Node) : GainsOnly touches start (put l node disk) := by
  intro q other found
  rw [get_put _ below] at found
  split at found
  · rename_i here
    exact .inr (here ▸ member)
  · exact gains q other found

theorem GainsOnly.removeAll (gains : GainsOnly touches start disk) (l : Loc) :
    GainsOnly touches start (removeAll l disk) := by
  intro q node found
  by_cases root : l = []
  · have empty : FileSystem.removeAll l disk = [] := by simp [FileSystem.removeAll, root]
    rw [empty, get] at found
    split at found
    · rename_i here
      exact .inl (by rwa [here])
    · cases found
  · rw [get_removeAll root] at found
    split at found
    · cases found
    · exact gains q node found

theorem gainsOnly_createDirectories (done : createDirectories path disk = some made) :
    GainsOnly (createTouches path disk) disk made := by
  intro q node found
  rw [get_createDirectories done] at found
  split at found
  · rename_i touched
    exact .inr touched
  · exact .inl found

end Gains
end FileSystem
