import Such.Base.FileSystem.Staging

/-! Path strings that name a place directly, their siblings, and what a relative path leads
to below one. -/
namespace FileSystem
open ByteText

theorem foldl_enter_names (base names : Loc) :
    (names.map Name.bytes).foldl enter base = base ++ names := by
  induction names generalizing base with
  | nil => simp
  | cons name names ih =>
    rw [List.map_cons, List.foldl_cons, enter, Name.ofBytes?_bytes, ih]
    simp

theorem exists_names {parts : List Bytes} (all : ∀ c ∈ parts, IsName c) :
    ∃ names : Loc, parts = names.map Name.bytes := by
  induction parts with
  | nil => exact ⟨[], rfl⟩
  | cons c parts ih =>
    simp only [List.mem_cons, forall_eq_or_imp] at all
    obtain ⟨names, rfl⟩ := ih all.2
    exact ⟨⟨c, all.1⟩ :: names, rfl⟩

theorem isName_of_component {path c : Bytes} (clear : 0 ∉ path) (member : c ∈ components path)
    (plain : c ≠ [46] ∧ c ≠ [46, 46]) : IsName c := by
  have field := fields_isField member
  have inside := infix_fields member
  refine ⟨field.1, fun slash => ?_, fun zero => clear (inside.subset zero), plain⟩
  have := field.2 47 slash
  simp [isSlash] at this

theorem last_ne_slash {path : Bytes} (named : filename path ≠ []) : path.getLast? ≠ some 47 := by
  intro last
  obtain ⟨v, rfl⟩ := List.getLast?_eq_some_iff.mp last
  rw [filename_append_slash] at named
  exact named rfl

section PlainPaths

/-- No NUL, no dot links, and a file name at the end. -/
structure Plain (path : Bytes) (l : Loc) : Prop where
  clear : 0 ∉ path
  parts : components path = l.map Name.bytes
  named : filename path ≠ []

variable {path : Bytes} {l d : Loc} {n : Name}

theorem Plain.cstr_eq (plain : Plain path l) : cstr path = path := cstr_of_notMem plain.clear

theorem Plain.filled (plain : Plain path l) : (cstr path).isEmpty = false := by
  rw [plain.cstr_eq, List.isEmpty_eq_false_iff]
  rintro rfl
  exact plain.named rfl

theorem Plain.locate (plain : Plain path l) : locate path = l := by
  rw [FileSystem.locate, plain.cstr_eq, plain.parts, foldl_enter_names, List.nil_append]

/-- A path without NUL and dot links that ends with a name is plain. -/
theorem exists_plain (clear : 0 ∉ path) (named : filename path ≠ [])
    (dots : ∀ c ∈ components path, c ≠ [46] ∧ c ≠ [46, 46]) : ∃ d n, Plain path (d ++ [n]) := by
  obtain ⟨l, parts⟩ := exists_names fun c member => isName_of_component clear member (dots c member)
  have filled : l ≠ [] := by
    rintro rfl
    rw [components_eq, if_neg (by simpa using named)] at parts
    simp at parts
  exact ⟨l.dropLast, l.getLast filled, clear, by rw [List.dropLast_append_getLast, parts], named⟩

theorem Plain.split (plain : Plain path (d ++ [n])) :
    components (stem path) = d.map Name.bytes ∧ filename path = n.bytes := by
  have parts := plain.parts
  rw [components_eq, if_neg (by simpa using plain.named), List.map_append] at parts
  have := List.append_inj' parts rfl
  exact ⟨this.1, by simpa using this.2⟩

theorem Plain.parent (plain : Plain path (d ++ [n])) :
    components (parentPath path) = d.map Name.bytes := by
  rw [components_parentPath, plain.split.1]

/-- Bytes that may follow a name. -/
def IsSuffix (suffix : Bytes) : Prop := suffix ≠ [] ∧ 0 ∉ suffix ∧ 47 ∉ suffix

instance (suffix : Bytes) : Decidable (IsSuffix suffix) := inferInstanceAs (Decidable (_ ∧ _))

theorem isName_append (n : Name) {suffix : Bytes} (more : IsSuffix suffix) :
    IsName (n.bytes ++ suffix) := by
  obtain ⟨nonempty, noSlash, noZero, notDot, -⟩ := n.valid
  obtain ⟨filled, clear, slash⟩ := more
  refine ⟨by simp [filled], by simp [noSlash, slash], by simp [noZero, clear], ?_, ?_⟩
  · intro same
    have size := congrArg List.length same
    have := List.length_pos_iff.mpr nonempty
    have := List.length_pos_iff.mpr filled
    simp only [List.length_append, List.length_singleton] at size
    omega
  · intro same
    obtain ⟨b, rest, shape⟩ := List.exists_cons_of_ne_nil nonempty
    rw [shape, List.cons_append, List.cons.injEq] at same
    obtain ⟨rfl, tail⟩ := same
    cases rest with
    | nil => exact notDot shape
    | cons c rest => simp [filled] at tail

/-- The name longer by a suffix names a place in the same directory. -/
theorem Plain.sibling (plain : Plain path (d ++ [n])) {suffix : Bytes} (more : IsSuffix suffix) :
    ∃ name : Name, name.bytes = n.bytes ++ suffix ∧
      Plain (append (parentPath path) (filename path ++ suffix)) (d ++ [name]) := by
  have valid := isName_append n more
  have relative : isAbsolute (n.bytes ++ suffix) = false := by
    obtain ⟨b, rest, shape⟩ := List.exists_cons_of_ne_nil valid.1
    have : b ≠ 47 := by
      rintro rfl
      exact valid.2.1 (by simp [shape])
    simp [isAbsolute, shape, this]
  refine ⟨⟨_, valid⟩, rfl, ?_⟩
  rw [plain.split.2]
  refine ⟨?_, ?_, ?_⟩
  · have parentClear : 0 ∉ parentPath path := fun member => plain.clear (by
      have := (prefix_parentPath path).subset member
      rw [← stem_append_filename path]
      exact List.mem_append_left _ this)
    simp only [append]
    split
    · exact valid.2.2.1
    · split
      · simp only [List.mem_append, not_or]
        exact ⟨parentClear, by simpa using valid.2.2.1⟩
      · simp only [List.mem_append, List.mem_cons, not_or]
        exact ⟨parentClear, by decide, by simpa using valid.2.2.1⟩
  · rw [components_append relative, plain.parent, components_plain valid.2.1]
    simp [valid.1]
  · rw [filename_append relative, filename_plain valid.2.1]
    exact valid.1

/-- A name below a plain path. -/
theorem Plain.child (plain : Plain path l) (n : Name) : Plain (append path n.bytes) (l ++ [n]) := by
  have relative : isAbsolute n.bytes = false := by
    have head := head_joinNames_ne_slash [n]
    simpa [isAbsolute, joinNames, joinWith] using head
  refine ⟨?_, ?_, ?_⟩
  · have free := n.valid.2.2.1
    simp only [append]
    split
    · exact free
    · split <;> simp [plain.clear, free]
  · rw [components_append relative, plain.parts, components_plain n.valid.2.1]
    simp [n.valid.1]
  · rw [filename_append relative, filename_plain n.valid.2.1]
    exact n.valid.1

/-- With a slash behind it a plain path is its own parent. -/
theorem Plain.parentPath_slash (plain : Plain path l) : parentPath (path ++ [47]) = path := by
  have whole : (path ++ [47]).rdropWhile (fun b => !isSlash b) = path ++ [47] :=
    (stem_append_slash path []).trans (by simp [stem])
  have last := last_ne_slash plain.named
  have trimmed : (path ++ [47]).rdropWhile isSlash = path := by
    rw [List.rdropWhile_concat_pos _ _ _ (by decide), List.rdropWhile_eq_self_iff]
    intro filled slash
    apply last
    rw [List.getLast?_eq_some_getLast filled]
    simpa [isSlash] using slash
  have filled : path ≠ [] := by
    rintro rfl
    exact plain.named rfl
  unfold parentPath
  rw [whole]
  dsimp only
  rw [trimmed, if_neg (by simpa using filled)]

end PlainPaths

section RelativePaths

/-- The system finds a file name at the end of the path, and the directory before it is not
cut short by a NUL. -/
def NamesFile (path : Bytes) : Prop := 0 ∉ stem path ∧ IsName (filename (cstr path))

instance (path : Bytes) : Decidable (NamesFile path) := inferInstanceAs (Decidable (_ ∧ _))

variable {temp rel : Bytes} {top ws : Loc} {disk made : Disk}

/-- Without dot links everything before the last slash is made of names. -/
theorem exists_stem_names (dots : ∀ c ∈ components rel, c ≠ [46] ∧ c ≠ [46, 46]) :
    ∃ ws : Loc, components (stem (cstr rel)) = ws.map Name.bytes := by
  refine exists_names fun c member => ?_
  have clear : 0 ∉ stem (cstr rel) := fun zero => notMem_cstr rel (by
    rw [← stem_append_filename (cstr rel)]
    exact List.mem_append_left _ zero)
  have whole : rel = stem (cstr rel) ++ (filename (cstr rel) ++ rel.dropWhile (· != 0)) := by
    rw [← List.append_assoc, stem_append_filename]
    exact List.takeWhile_append_dropWhile.symm
  have inside : c ∈ components rel := by
    rw [whole, components_stem_append]
    exact List.mem_append_left _ member
  exact isName_of_component clear member (dots c inside)

theorem locate_of_names (shape : components (stem (cstr rel)) = ws.map Name.bytes) {last : Name}
    (named : Name.ofBytes? (filename (cstr rel)) = some last) : locate rel = ws ++ [last] := by
  have filled : (filename (cstr rel)).isEmpty = false := by
    rw [← Name.bytes_of_ofBytes? named]
    simpa using last.valid.1
  rw [locate_eq, filled, shape, foldl_enter_names]
  simp [enter, named]

theorem append_below (plain : Plain temp top) (relative : isAbsolute rel = false) :
    append temp rel = temp ++ 47 :: rel := by
  have filled := plain.filled
  rw [plain.cstr_eq] at filled
  simp [append, relative, filled, last_ne_slash plain.named]

theorem cstr_below (plain : Plain temp top) : cstr (temp ++ 47 :: rel) = temp ++ 47 :: cstr rel := by
  rw [cstr_append_of_notMem plain.clear, cstr_cons, if_neg (by decide)]

theorem stem_stem_append {v w : Bytes} (free : 47 ∉ w) : stem (stem v ++ w) = stem v := by
  have none : stem w = [] := by
    have := stem_append_filename w
    rw [filename_plain free] at this
    simpa using this
  rcases stem_shape v with empty | ⟨u, shape⟩
  · rw [empty, List.nil_append, none]
  · rw [shape, List.append_assoc, List.singleton_append, stem_append_slash, none]

/-- Bytes without a slash lengthen the file name. -/
theorem stem_append_suffix (path : Bytes) {suffix : Bytes} (free : 47 ∉ suffix) :
    stem (path ++ suffix) = stem path ∧ filename (path ++ suffix) = filename path ++ suffix := by
  have split : path ++ suffix = stem path ++ (filename path ++ suffix) := by
    rw [← List.append_assoc, stem_append_filename]
  have same : stem (path ++ suffix) = stem path := by
    rw [split, stem_stem_append (by simp [slash_notMem_filename, free])]
  refine ⟨same, List.append_cancel_left (?_ : stem path ++ _ = stem path ++ _)⟩
  rw [← split, ← same, stem_append_filename]

/-- A NUL in the file name alone does not change what stands before it. -/
theorem stem_cstr (clear : 0 ∉ stem rel) : stem (cstr rel) = stem rel := by
  have split : cstr rel = stem rel ++ cstr (filename rel) := by
    rw [← cstr_append_of_notMem clear, stem_append_filename]
  have free : 47 ∉ cstr (filename rel) := fun slash =>
    slash_notMem_filename rel ((List.takeWhile_prefix _).subset slash)
  rw [split, stem_stem_append free]

/-- The directories made for a file below `top`. A NUL before the last slash cuts the parent
path and the path of the file at the same place. -/
theorem createDirectories_below (plain : Plain temp top) (relative : isAbsolute rel = false)
    (shape : components (stem (cstr rel)) = ws.map Name.bytes) :
    createDirectories (parentPath (append temp rel)) disk = some made ↔
      let names := top ++ (ws ++
        if 0 ∈ stem rel then (Name.ofBytes? (filename (cstr rel))).toList else [])
      NoFileOnWay [] names disk ∧ made = makeDirs [] names disk := by
  have zero : 0 ∈ stem (temp ++ 47 :: rel) ↔ 0 ∈ stem rel := by
    rw [stem_append_slash]
    simp [plain.clear]
  have parts := components_cstr_parentPath (temp ++ 47 :: rel)
  rw [← append_below plain relative] at parts zero
  simp only [zero] at parts
  have nonempty : top ≠ [] := by
    rintro rfl
    have := plain.parts
    rw [components_eq, if_neg (by simpa using plain.named)] at this
    simp at this
  have filled : ∀ tail, components (cstr (parentPath (append temp rel))) =
      (top ++ ws).map Name.bytes ++ tail → cstr (parentPath (append temp rel)) ≠ [] := by
    intro tail parts empty
    rw [empty] at parts
    simp only [components, fields_nil, List.nil_eq, List.append_eq_nil_iff, List.map_eq_nil_iff]
      at parts
    exact nonempty parts.1.1
  by_cases cut : 0 ∈ stem rel
  · rw [if_pos cut, append_below plain relative, cstr_below plain, components_append_slash,
      plain.parts, components_eq (cstr rel), shape, ← List.append_assoc, ← List.map_append,
      ← append_below plain relative] at parts
    rw [createDirectories_eq_some (filled _ parts) parts (by split <;> simp)]
    have tail : (if (filename (cstr rel)).isEmpty then [] else [filename (cstr rel)]).filterMap
        Name.ofBytes? = (Name.ofBytes? (filename (cstr rel))).toList := by
      split
      · rename_i empty
        rw [List.isEmpty_iff.mp empty]
        rfl
      · cases named : Name.ofBytes? (filename (cstr rel)) <;> simp [named]
    simp only [tail, cut, if_true, List.append_assoc]
  · rw [if_neg cut, append_below plain relative, stem_append_slash, components_append_slash,
      plain.parts, ← stem_cstr cut, shape, ← List.map_append, ← List.append_nil (List.map _ _),
      ← append_below plain relative] at parts
    rw [createDirectories_eq_some (filled _ parts) parts (by simp)]
    simp [cut]

theorem openWrite_below (plain : Plain temp top) (relative : isAbsolute rel = false)
    (shape : components (stem (cstr rel)) = ws.map Name.bytes) {l : Loc} :
    openWrite made (append temp rel) = some l ↔
      ∃ last, Name.ofBytes? (filename (cstr rel)) = some last ∧ l = top ++ (ws ++ [last]) ∧
        get made (top ++ ws) = some .dir ∧ get made l ≠ some .dir := by
  have place : ∀ last, Name.ofBytes? (filename (cstr rel)) = some last →
      locate (append temp rel) = top ++ (ws ++ [last]) := by
    intro last named
    rw [append_below plain relative, locate, cstr_below plain, components_append_slash,
      List.foldl_append, plain.parts, foldl_enter_names, List.nil_append, components_eq, shape,
      List.foldl_append, foldl_enter_names]
    have filled : (filename (cstr rel)).isEmpty = false := by
      rw [← Name.bytes_of_ofBytes? named]
      simpa using last.valid.1
    simp [filled, enter, named]
  rw [openWrite_eq_some]
  rw [append_below plain relative] at place ⊢
  rw [cstr_below plain, filename_append_slash, stem_append_slash, components_append_slash,
    plain.parts, shape, ← List.map_append, foldl_enter_names, List.nil_append]
  constructor
  · rintro ⟨last, named, rfl, -, parent, free⟩
    rw [List.dropLast_concat] at parent
    exact ⟨last, named, by simp, parent, free⟩
  · rintro ⟨last, named, rfl, parent, free⟩
    refine ⟨last, named, by simp, (place last named).symm, ?_, free⟩
    rw [← List.append_assoc, List.dropLast_concat]
    exact parent

end RelativePaths

section Siblings
variable {disk : Disk} {d : Loc} {x y z : Name}

theorem sibling_apart (differ : x ≠ y) (r : Loc) : ¬ d ++ [x] <+: d ++ [y] ++ r := by
  rw [List.append_assoc, List.prefix_append_right_inj, List.singleton_append, List.cons_prefix_cons]
  exact fun same => differ same.1

theorem sibling_not_above (differ : x ≠ y) : ¬ d ++ [x] <+: d ++ [y] := by
  simpa using @sibling_apart d x y differ []

theorem rename_sibling (differ : x ≠ y) (parent : get disk d = some .dir)
    (present : get disk (d ++ [x]) ≠ none) (absent : get disk (d ++ [y]) = none) :
    rename (d ++ [x]) (d ++ [y]) disk = some (move (d ++ [x]) (d ++ [y]) disk) := by
  obtain ⟨node, present⟩ := Option.ne_none_iff_exists'.mp present
  refine rename_of_absent present (by simp) (by simp) (by simpa using parent) ?_ ?_ absent
  · exact sibling_not_above differ
  · exact sibling_not_above differ.symm

theorem get_move_sibling (differ : x ≠ y) (r : Loc) :
    get (move (d ++ [x]) (d ++ [y]) disk) (d ++ [y] ++ r) = get disk (d ++ [x] ++ r) := by
  rw [get_move (by simp) (by simp) (sibling_not_above differ)
    (sibling_not_above differ.symm), if_pos (List.prefix_append _ _),
    List.drop_left]

theorem get_move_source (differ : x ≠ y) (r : Loc) :
    get (move (d ++ [x]) (d ++ [y]) disk) (d ++ [x] ++ r) = none := by
  rw [get_move (by simp) (by simp) (sibling_not_above differ)
    (sibling_not_above differ.symm), if_neg (sibling_apart differ.symm r),
    if_pos (List.prefix_append _ _)]

theorem get_move_elsewhere (differ : x ≠ y) {p : Loc} (hx : ¬ d ++ [x] <+: p)
    (hy : ¬ d ++ [y] <+: p) : get (move (d ++ [x]) (d ++ [y]) disk) p = get disk p := by
  rw [get_move (by simp) (by simp) (sibling_not_above differ)
    (sibling_not_above differ.symm), if_neg hy, if_neg hx]

theorem sibling_not_above_parent : ¬ d ++ [x] <+: d := fun below => by
  have := below.length_le
  simp at this

theorem Staging.top_dir {start : Disk} {top : Loc} {files : List (Loc × Bytes)}
    (staging : Staging start top files disk) : get disk top = some .dir := by
  have inside := staging.inside []
  rwa [stagedNode_nil_place staging.named, List.append_nil] at inside

theorem Staging.parent_dir {start : Disk} {files : List (Loc × Bytes)}
    (staging : Staging start (d ++ [x]) files disk)
    (way : ∀ p, p <+: d ++ [x] → get start p = some .dir) : get disk d = some .dir := by
  rw [staging.outside d sibling_not_above_parent]
  exact way d (List.prefix_append _ _)

end Siblings

section ClosedTrees
variable {disk : Disk} {a b : Loc}

/-- Whatever exists lies in a directory. -/
def Closed (disk : Disk) : Prop := ∀ l x, get disk (l ++ [x]) ≠ none → get disk l = some .dir

theorem mem_of_get {l : Loc} (below : l ≠ []) (present : get disk l ≠ none) :
    ∃ e ∈ disk, e.1 = l := by
  rw [get, if_neg below] at present
  obtain ⟨node, found⟩ := Option.ne_none_iff_exists'.mp present
  obtain ⟨before, after, split, -⟩ := List.lookup_eq_some_iff.mp found
  exact ⟨(l, node), by simp [split], rfl⟩

theorem closed_of_entries (all : ∀ e ∈ disk, get disk e.1.dropLast = some .dir) : Closed disk := by
  intro l x present
  obtain ⟨e, member, same⟩ := mem_of_get (by simp) present
  have parent := all e member
  rwa [same, List.dropLast_concat] at parent

theorem Closed.above (closed : Closed disk) (above : a <+: b) (differ : a ≠ b)
    (present : get disk b ≠ none) : get disk a = some .dir := by
  induction b using List.reverseRecOn with
  | nil => exact absurd (List.prefix_nil.mp above) differ
  | append_singleton b x ih =>
    have parent := closed b x present
    rcases List.prefix_concat_iff.mp above with same | shorter
    · exact absurd same differ
    · by_cases whole : a = b
      · rw [whole, parent]
      · exact ih shorter whole (by simp [parent])

/-- Nothing is below a file, so it can be removed. -/
theorem Closed.isEmptyDir_file (closed : Closed disk) {content : Bytes}
    (file : get disk a = some (.file content)) : isEmptyDir disk a = true := by
  simp only [isEmptyDir, List.all_eq_true, Bool.or_eq_true, Bool.not_eq_true', beq_iff_eq]
  intro e member
  by_cases above : a <+: e.1
  · refine .inr ?_
    by_contra differ
    have present : get disk e.1 ≠ none := by
      simp only [get]
      split
      · simp
      · rw [Ne, List.lookup_eq_none_iff]
        exact fun absent => absurd (absent e member) (by simp)
    rw [closed.above above (Ne.symm differ) present] at file
    cases file
  · exact .inl (by rwa [← Bool.not_eq_true, List.isPrefixOf_iff_prefix])

end ClosedTrees

section JoinedPaths

@[simp] theorem locate_joinNames (names : Loc) : locate (joinNames names) = names := by
  rw [locate, cstr_of_notMem (zero_notMem_joinNames names), components_joinNames, foldl_enter_names,
    List.nil_append]

theorem joinNames_cons (name : Name) {names : Loc} (more : names ≠ []) :
    joinNames (name :: names) = name.bytes ++ 47 :: joinNames names := by
  cases names with
  | nil => exact absurd rfl more
  | cons next rest => rfl

theorem filename_joinNames (names : Loc) (last : Name) :
    filename (joinNames (names ++ [last])) = last.bytes := by
  induction names with
  | nil => exact filename_plain last.valid.2.1
  | cons name names ih =>
    rw [List.cons_append, joinNames_cons name (by simp), filename_append_slash, ih]

theorem namesFile_joinNames {names : Loc} (below : names ≠ []) : NamesFile (joinNames names) := by
  have clear := zero_notMem_joinNames names
  refine ⟨fun zero => clear ?_, ?_⟩
  · rw [← stem_append_filename (joinNames names)]
    exact List.mem_append_left _ zero
  · rw [cstr_of_notMem clear, ← List.dropLast_append_getLast below, filename_joinNames]
    exact (names.getLast below).valid

end JoinedPaths
end FileSystem
