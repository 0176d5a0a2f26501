import Such.Base.ByteText

/-! POSIX path strings, and a tree of files and directories without symbolic links.
A location is the list of names from the root; a path string is resolved to one name
by name. The tree is a finite map, compared through its lookups. -/
namespace FileSystem
open ByteText

/-- A directory entry's name: no slash, no NUL, and not one of the two dot links. -/
def IsName (v : Bytes) : Prop := v ≠ [] ∧ 47 ∉ v ∧ 0 ∉ v ∧ v ≠ [46] ∧ v ≠ [46, 46]

instance (v : Bytes) : Decidable (IsName v) := inferInstanceAs (Decidable (_ ∧ _))

structure Name where
  bytes : Bytes
  valid : IsName bytes
deriving DecidableEq

def Name.ofBytes? (v : Bytes) : Option Name := if h : IsName v then some ⟨v, h⟩ else none

abbrev Loc := List Name

section Paths

def isSlash (b : UInt8) : Bool := b == 47

def components (path : Bytes) : List Bytes := fields isSlash path

def filename (path : Bytes) : Bytes := path.rtakeWhile fun b => !isSlash b

def parentPath (path : Bytes) : Bytes :=
  let stem := path.rdropWhile fun b => !isSlash b
  let trimmed := stem.rdropWhile isSlash
  if trimmed.isEmpty then stem.take 1 else trimmed

/-- From the last dot on, unless the name has no other text before it. -/
def extension (path : Bytes) : Bytes :=
  let name := filename path
  let suffix := name.rtakeWhile (· != 46)
  if name = [46, 46] ∨ !name.contains 46 ∨ name.length = suffix.length + 1 then []
  else 46 :: suffix

def isAbsolute (path : Bytes) : Bool := path.head? = some 47

/-- Path concatenation; an absolute right side replaces the left one. -/
def append (path more : Bytes) : Bytes :=
  if isAbsolute more || path.isEmpty then more
  else if path.getLast? = some 47 then path ++ more
  else path ++ 47 :: more

def enter (l : Loc) (component : Bytes) : Loc :=
  match Name.ofBytes? component with
  | some name => l ++ [name]
  | none => if component = [46, 46] then l.dropLast else l

/-- Where the system looks for a path; it reads up to the first NUL. -/
def locate (path : Bytes) : Loc := (components (cstr path)).foldl enter []

def joinNames (names : Loc) : Bytes := joinWith 47 (names.map Name.bytes)

/-- The generic format: separators are single. -/
def generic : Bytes → Bytes
  | [] => []
  | [b] => [b]
  | a :: b :: rest => if a = 47 ∧ b = 47 then generic (b :: rest) else a :: generic (b :: rest)

end Paths

section Trees

inductive Node where
  | dir
  | file (content : Bytes)
deriving DecidableEq, Repr

abbrev Disk := List (Loc × Node)

/-- The root always exists. -/
def get (disk : Disk) (l : Loc) : Option Node := if l = [] then some .dir else disk.lookup l

def put (l : Loc) (node : Node) (disk : Disk) : Disk := (l, node) :: disk

def removeAll (l : Loc) (disk : Disk) : Disk := disk.filter fun e => !l.isPrefixOf e.1

/-- Everything at or below `a` goes to the same place below `b`. -/
def move (a b : Loc) (disk : Disk) : Disk :=
  (removeAll b disk).map fun e => (if a <+: e.1 then b ++ e.1.drop a.length else e.1, e.2)

def isEmptyDir (disk : Disk) (l : Loc) : Bool := disk.all fun e => !(l.isPrefixOf e.1) || e.1 == l

/-- Whether a node may be renamed onto what is at the target. -/
def replaceable (disk : Disk) (source : Node) (target : Loc) : Bool :=
  match get disk target, source with
  | none, _ => true
  | some (.file _), .file _ => true
  | some .dir, .dir => isEmptyDir disk target
  | _, _ => false

def rename (a b : Loc) (disk : Disk) : Option Disk :=
  match get disk a with
  | none => none
  | some source =>
    if a = [] ∨ b = [] ∨ get disk b.dropLast ≠ some .dir then none
    else if a = b then some disk
    else if a <+: b ∨ b <+: a then none
    else if replaceable disk source b then some (move a b disk) else none

/-- Deletes a file or an empty directory; anything else stays. -/
def remove (l : Loc) (disk : Disk) : Disk :=
  if isEmptyDir disk l then removeAll l disk else disk

/-- One component of a directory to be made. -/
def makeStep (state : Loc × Disk) (component : Bytes) : Option (Loc × Disk) :=
  match Name.ofBytes? component with
  | none => some (enter state.1 component, state.2)
  | some name =>
    let l := state.1 ++ [name]
    match get state.2 l with
    | some .dir => some (l, state.2)
    | some (.file _) => none
    | none => some (l, put l .dir state.2)

def createDirectories (path : Bytes) (disk : Disk) : Option Disk :=
  if (cstr path).isEmpty then none
  else ((components (cstr path)).foldlM makeStep ([], disk)).map (·.2)

def isDirectory (disk : Disk) (path : Bytes) : Bool :=
  !(cstr path).isEmpty && get disk (locate path) == some .dir

def pathExists (disk : Disk) (path : Bytes) : Bool :=
  !(cstr path).isEmpty && (get disk (locate path)).isSome

/-- Opening a directory succeeds but yields no bytes. -/
def openRead (disk : Disk) (path : Bytes) : Option Bytes :=
  if (cstr path).isEmpty then none
  else
    match get disk (locate path) with
    | none => none
    | some .dir => some []
    | some (.file content) => if (filename (cstr path)).isEmpty then none else some content

/-- The file a path creates or truncates, when the system allows that. -/
def openWrite (disk : Disk) (path : Bytes) : Option Loc :=
  match Name.ofBytes? (filename (cstr path)) with
  | none => none
  | some _ =>
    let l := locate path
    if get disk l.dropLast = some .dir ∧ get disk l ≠ some .dir then some l else none

end Trees

section Lookups
variable {disk : Disk} {a b l p : Loc}

@[simp] theorem get_root (disk : Disk) : get disk [] = some .dir := rfl

theorem get_put (node : Node) (below : l ≠ []) :
    get (put l node disk) p = if p = l then some node else get disk p := by
  simp only [get, put]
  by_cases root : p = []
  · subst root
    simp [below.symm]
  · simp only [if_neg root, List.lookup_cons]
    by_cases same : p = l
    · simp [same]
    · have differ : (p == l) = false := by simpa using same
      simp [same, differ]

theorem lookup_filter (keep : Loc → Bool) (disk : Disk) (p : Loc) :
    (disk.filter fun e => keep e.1).lookup p = if keep p then disk.lookup p else none := by
  induction disk with
  | nil => simp
  | cons e disk ih =>
    obtain ⟨q, node⟩ := e
    by_cases same : p = q
    · subst same
      cases kept : keep p <;> simp [kept, ih]
    · have differ : (p == q) = false := by simpa using same
      cases kept : keep q <;> simp [kept, ih, List.lookup_cons, differ]

theorem get_removeAll (below : l ≠ []) :
    get (removeAll l disk) p = if l <+: p then none else get disk p := by
  simp only [get, removeAll]
  by_cases root : p = []
  · subst root
    simp [below]
  · rw [if_neg root, if_neg root, lookup_filter fun q => !l.isPrefixOf q]
    by_cases inside : l <+: p <;> simp [inside]

theorem prefix_comparable (first : a <+: p) (second : b <+: p) : a <+: b ∨ b <+: a :=
  List.prefix_or_prefix_of_prefix first second

theorem lookup_move (clear : ∀ e ∈ disk, ¬ b <+: e.1) (p : Loc) :
    (disk.map fun e => (if a <+: e.1 then b ++ e.1.drop a.length else e.1, e.2)).lookup p =
      if b <+: p then disk.lookup (a ++ p.drop b.length)
      else if a <+: p then none else disk.lookup p := by
  induction disk with
  | nil => simp
  | cons e disk ih =>
    obtain ⟨q, node⟩ := e
    have rest := ih fun e member => clear e (by simp [member])
    have free : ¬ b <+: q := clear (q, node) (by simp)
    simp only [List.map_cons, List.lookup_cons, rest]
    by_cases moved : a <+: q
    · obtain ⟨r, rfl⟩ := moved
      have key : (if a <+: a ++ r then b ++ (a ++ r).drop a.length else a ++ r) = b ++ r := by simp
      rw [key]
      by_cases inside : b <+: p
      · obtain ⟨t, rfl⟩ := inside
        have left : (b ++ t == b ++ r) = (t == r) := by simp
        have right : (a ++ t == a ++ r) = (t == r) := by simp
        simp [left, right]
      · have other : (p == b ++ r) = false := by
          simp only [beq_eq_false_iff_ne, ne_eq]
          rintro rfl
          exact inside (List.prefix_append _ _)
        by_cases below : a <+: p
        · simp [inside, below, other]
        · have different : (p == a ++ r) = false := by
            simp only [beq_eq_false_iff_ne, ne_eq]
            rintro rfl
            exact below (List.prefix_append _ _)
          simp [inside, below, other, different]
    · simp only [if_neg moved]
      by_cases inside : b <+: p
      · have other : (p == q) = false := by
          simp only [beq_eq_false_iff_ne, ne_eq]
          rintro rfl
          exact free inside
        have different : (a ++ p.drop b.length == q) = false := by
          simp only [beq_eq_false_iff_ne, ne_eq]
          rintro rfl
          exact moved (List.prefix_append _ _)
        simp [inside, other, different]
      · by_cases below : a <+: p
        · have other : (p == q) = false := by
            simp only [beq_eq_false_iff_ne, ne_eq]
            rintro rfl
            exact moved below
          simp [inside, below, other]
        · simp [inside, below]

theorem get_move (ha : a ≠ []) (hb : b ≠ []) (apart : ¬ a <+: b) (apart' : ¬ b <+: a) :
    get (move a b disk) p =
      if b <+: p then get disk (a ++ p.drop b.length)
      else if a <+: p then none else get disk p := by
  have clear : ∀ e ∈ removeAll b disk, ¬ b <+: e.1 := by
    intro e member inside
    have kept := List.of_mem_filter member
    simp [List.isPrefixOf_iff_prefix.mpr inside] at kept
  have removed : ∀ q, ¬ b <+: q → (removeAll b disk).lookup q = disk.lookup q := by
    intro q outside
    rw [removeAll, lookup_filter fun q => !b.isPrefixOf q]
    simp [outside]
  have source : ∀ r, ¬ b <+: a ++ r := by
    intro r inside
    rcases prefix_comparable (List.prefix_append a r) inside with one | other
    · exact apart one
    · exact apart' other
  simp only [get, move]
  by_cases root : p = []
  · subst root
    simp [ha, hb]
  · rw [if_neg root, lookup_move clear]
    by_cases inside : b <+: p
    · simp [inside, ha, removed _ (source _)]
    · by_cases below : a <+: p
      · simp [inside, below]
      · simp [inside, below, root, removed _ inside]

theorem rename_of_absent {node : Node} (source : get disk a = some node) (ha : a ≠ []) (hb : b ≠ [])
    (parent : get disk b.dropLast = some .dir) (apart : ¬ a <+: b) (apart' : ¬ b <+: a)
    (absent : get disk b = none) : rename a b disk = some (move a b disk) := by
  have differ : a ≠ b := by
    rintro rfl
    exact apart (List.prefix_refl _)
  simp [rename, source, ha, hb, parent, differ, apart, apart', replaceable, absent]

/-- A rename that goes through either does nothing or moves a tree beside it. -/
theorem rename_cases {moved : Disk} (done : rename a b disk = some moved) :
    a ≠ [] ∧ b ≠ [] ∧ get disk a ≠ none ∧
      ((a = b ∧ moved = disk) ∨ (¬ a <+: b ∧ ¬ b <+: a ∧ moved = move a b disk)) := by
  simp only [rename] at done
  cases source : get disk a with
  | none =>
    rw [source] at done
    cases done
  | some node =>
    rw [source] at done
    simp only at done
    split at done
    · cases done
    · rename_i named
      simp only [not_or] at named
      refine ⟨named.1, named.2.1, by simp, ?_⟩
      split at done
      · rename_i same
        exact .inl ⟨same, (Option.some.inj done).symm⟩
      · split at done
        · cases done
        · rename_i apart
          rw [not_or] at apart
          split at done
          · exact .inr ⟨apart.1, apart.2, (Option.some.inj done).symm⟩
          · cases done

theorem get_remove (l p : Loc) :
    get (remove l disk) p = get disk p ∨ get (remove l disk) p = none := by
  simp only [remove]
  split
  · by_cases below : l = []
    · subst below
      by_cases root : p = [] <;> simp [get, removeAll, root]
    · rw [get_removeAll below]
      split
      · exact .inr rfl
      · exact .inl rfl
  · exact .inl rfl

end Lookups

section Resolving

theorem Name.ofBytes?_bytes (name : Name) : Name.ofBytes? name.bytes = some name := by
  simp [Name.ofBytes?, name.valid]

theorem Name.bytes_of_ofBytes? {v : Bytes} {name : Name} (made : Name.ofBytes? v = some name) :
    name.bytes = v := by
  simp only [Name.ofBytes?] at made
  split at made
  · rw [← Option.some.inj made]
  · cases made

/-- Everything up to and including the last slash. -/
def stem (path : Bytes) : Bytes := path.rdropWhile fun b => !isSlash b

theorem stem_append_filename (path : Bytes) : stem path ++ filename path = path :=
  List.rdropWhile_append_rtakeWhile

theorem slash_notMem_filename (path : Bytes) : 47 ∉ filename path := by
  intro member
  have := List.mem_rtakeWhile_imp member
  simp [isSlash] at this

theorem filename_append_slash (v w : Bytes) : filename (v ++ 47 :: w) = filename w :=
  rtakeWhile_append_stop (by decide) v w

theorem stem_append_slash (v w : Bytes) : stem (v ++ 47 :: w) = v ++ 47 :: stem w :=
  rdropWhile_append_stop (by decide) v w

/-- A stem is empty or ends with a slash. -/
theorem stem_shape (path : Bytes) : stem path = [] ∨ ∃ v, stem path = v ++ [47] := by
  by_cases empty : stem path = []
  · exact .inl empty
  · refine .inr ⟨(stem path).dropLast, ?_⟩
    have last : ¬ (!isSlash ((stem path).getLast empty)) = true :=
      List.rdropWhile_last_not (fun b => !isSlash b) path empty
    have slash : (stem path).getLast empty = 47 := by simpa [isSlash] using last
    rw [← slash]
    exact (List.dropLast_append_getLast empty).symm

theorem components_append_slash (v w : Bytes) :
    components (v ++ 47 :: w) = components v ++ components w :=
  fields_append_sep v w (by decide)

theorem components_stem_append (path more : Bytes) :
    components (stem path ++ more) = components (stem path) ++ components more := by
  rcases stem_shape path with empty | ⟨v, shape⟩
  · simp [empty, components]
  · rw [shape, List.append_assoc, List.singleton_append, components_append_slash]
    have : components (v ++ [47]) = components v := by
      rw [components_append_slash]
      simp [components]
    rw [this]

theorem components_plain {v : Bytes} (free : 47 ∉ v) :
    components v = if v.isEmpty then [] else [v] := by
  have plain : ∀ b ∈ v, isSlash b = false := by
    intro b member
    simp only [isSlash, beq_eq_false_iff_ne, ne_eq]
    rintro rfl
    exact free member
  exact fieldsFrom_plain [] v plain

/-- A path's components are those of its stem and then its file name. -/
theorem components_eq (path : Bytes) : components path =
    components (stem path) ++ if (filename path).isEmpty then [] else [filename path] := by
  rw [← components_plain (slash_notMem_filename path), ← components_stem_append,
    stem_append_filename]

theorem components_slashes {v : Bytes} (slashes : ∀ b ∈ v, isSlash b = true) : components v = [] := by
  have := fields_append_seps slashes []
  simpa [components] using this

theorem components_parentPath (path : Bytes) : components (parentPath path) = components (stem path) := by
  have split : (stem path).rdropWhile isSlash ++ (stem path).rtakeWhile isSlash = stem path :=
    List.rdropWhile_append_rtakeWhile
  have slashes : ∀ b ∈ (stem path).rtakeWhile isSlash, isSlash b = true :=
    fun b member => List.mem_rtakeWhile_imp member
  have whole : components (stem path) = components ((stem path).rdropWhile isSlash) := by
    conv_lhs => rw [← split]
    exact fields_append_seps slashes _
  simp only [parentPath]
  change components (if ((stem path).rdropWhile isSlash).isEmpty then (stem path).take 1
    else (stem path).rdropWhile isSlash) = _
  split
  · rename_i empty
    have none : (stem path).rdropWhile isSlash = [] := by simpa using empty
    have all : ∀ b ∈ stem path, isSlash b = true := by
      rw [none, List.nil_append] at split
      rwa [split] at slashes
    rw [components_slashes all, components_slashes fun b member => all b (List.mem_of_mem_take member)]
  · exact whole.symm

theorem prefix_parentPath (path : Bytes) : parentPath path <+: stem path := by
  simp only [parentPath]
  change (if ((stem path).rdropWhile isSlash).isEmpty then (stem path).take 1
    else (stem path).rdropWhile isSlash) <+: _
  split
  · exact List.take_prefix _ _
  · exact List.rdropWhile_prefix _ _

/-- What the system is asked for when the parent of a path is made. -/
theorem components_cstr_parentPath (path : Bytes) : components (cstr (parentPath path)) =
    if 0 ∈ stem path then components (cstr path) else components (stem path) := by
  split
  · rename_i zero
    have split : (stem path).rdropWhile isSlash ++ (stem path).rtakeWhile isSlash = stem path :=
      List.rdropWhile_append_rtakeWhile
    have trimmed : 0 ∈ (stem path).rdropWhile isSlash := by
      rw [← split] at zero
      rcases List.mem_append.mp zero with inside | slash
      · exact inside
      · exact absurd (List.mem_rtakeWhile_imp slash) (by decide)
    have inside : 0 ∈ parentPath path := by
      have filled : ((stem path).rdropWhile isSlash).isEmpty = false := by
        cases same : (stem path).rdropWhile isSlash <;> simp_all
      simp only [parentPath]
      change 0 ∈ if ((stem path).rdropWhile isSlash).isEmpty then (stem path).take 1
        else (stem path).rdropWhile isSlash
      rw [filled]
      exact trimmed
    obtain ⟨rest, same⟩ := prefix_parentPath path
    rw [← cstr_append_of_mem inside (rest ++ filename path), ← List.append_assoc, same,
      stem_append_filename]
  · rename_i free
    have clear : 0 ∉ parentPath path := fun member =>
      free ((prefix_parentPath path).subset member)
    rw [cstr_of_notMem clear, components_parentPath]

/-- Concatenation puts the components side by side. -/
theorem components_append {path more : Bytes} (relative : isAbsolute more = false) :
    components (append path more) = components path ++ components more := by
  simp only [append]
  rw [relative, Bool.false_or]
  split
  · rename_i empty
    rw [List.isEmpty_iff.mp empty]
    rfl
  · split
    · rename_i last
      obtain ⟨v, rfl⟩ := List.getLast?_eq_some_iff.mp last
      rw [List.append_assoc, List.singleton_append, components_append_slash, components_append_slash]
      simp [components]
    · exact components_append_slash path more

theorem filename_plain {v : Bytes} (free : 47 ∉ v) : filename v = v := by
  have all : ∀ b ∈ v.reverse, (!isSlash b) = true := by
    intro b member
    simp only [Bool.not_eq_true', isSlash, beq_eq_false_iff_ne, ne_eq]
    rintro rfl
    exact free (List.mem_reverse.mp member)
  rw [filename, List.rtakeWhile, List.takeWhile_eq_self_iff.mpr all, List.reverse_reverse]

theorem filename_append {path more : Bytes} (relative : isAbsolute more = false) :
    filename (append path more) = filename more := by
  simp only [append]
  rw [relative, Bool.false_or]
  split
  · rfl
  · split
    · rename_i last
      obtain ⟨v, rfl⟩ := List.getLast?_eq_some_iff.mp last
      rw [List.append_assoc, List.singleton_append, filename_append_slash]
    · exact filename_append_slash path more

theorem locate_eq (path : Bytes) : locate path =
    (if (filename (cstr path)).isEmpty then [] else [filename (cstr path)]).foldl enter
      ((components (stem (cstr path))).foldl enter []) := by
  rw [locate, components_eq, List.foldl_append]

theorem openWrite_eq_some {disk : Disk} {path : Bytes} {l : Loc} :
    openWrite disk path = some l ↔ ∃ name, Name.ofBytes? (filename (cstr path)) = some name ∧
      l = (components (stem (cstr path))).foldl enter [] ++ [name] ∧ l = locate path ∧
      get disk l.dropLast = some .dir ∧ get disk l ≠ some .dir := by
  simp only [openWrite]
  cases named : Name.ofBytes? (filename (cstr path)) with
  | none => simp
  | some name =>
    have filled : (filename (cstr path)).isEmpty = false := by
      rw [← Name.bytes_of_ofBytes? named]
      simpa using name.valid.1
    have place : locate path = (components (stem (cstr path))).foldl enter [] ++ [name] := by
      rw [locate_eq, filled]
      simp [enter, named]
    simp only [Option.some.injEq, Option.ite_none_right_eq_some]
    constructor
    · rintro ⟨free, rfl⟩
      exact ⟨name, rfl, place, rfl, free⟩
    · rintro ⟨_, rfl, -, rfl, free⟩
      exact ⟨free, rfl⟩

end Resolving

section Joining

theorem Name.isField (name : Name) : IsField isSlash name.bytes := by
  refine ⟨name.valid.1, fun b member => ?_⟩
  simp only [isSlash, beq_eq_false_iff_ne, ne_eq]
  rintro rfl
  exact name.valid.2.1 member

@[simp] theorem components_joinNames (names : Loc) :
    components (joinNames names) = names.map Name.bytes := by
  refine fields_joinWith_of_isField (by decide) fun t member => ?_
  obtain ⟨name, -, rfl⟩ := List.mem_map.mp member
  exact name.isField

theorem head_joinNames_ne_slash (names : Loc) : (joinNames names).head? ≠ some 47 := by
  cases names with
  | nil => simp [joinNames, joinWith]
  | cons name names =>
    have first : name.bytes.head? ≠ some 47 := fun same =>
      name.valid.2.1 (List.mem_of_mem_head? same)
    cases names with
    | nil => simpa [joinNames, joinWith] using first
    | cons next rest =>
      obtain ⟨b, v, shape⟩ := List.exists_cons_of_ne_nil name.valid.1
      rw [shape] at first
      simpa [joinNames, joinWith, shape] using first

@[simp] theorem isAbsolute_joinNames (names : Loc) : isAbsolute (joinNames names) = false := by
  simpa [isAbsolute] using head_joinNames_ne_slash names

@[simp] theorem joinNames_eq_nil (names : Loc) : joinNames names = [] ↔ names = [] := by
  constructor
  · intro empty
    have none : names.map Name.bytes = [] := by rw [← components_joinNames, empty]; rfl
    simpa using none
  · rintro rfl
    rfl

theorem zero_notMem_joinNames (names : Loc) : 0 ∉ joinNames names := by
  induction names with
  | nil => simp [joinNames, joinWith]
  | cons name names ih =>
    cases names with
    | nil => simpa [joinNames, joinWith] using name.valid.2.2.1
    | cons next rest =>
      intro member
      simp only [joinNames, List.map_cons, joinWith, List.mem_append, List.mem_cons] at member
      rcases member with first | slash | other
      · exact name.valid.2.2.1 first
      · exact absurd slash (by decide)
      · exact ih other

/-- A joint of two runs without a doubled mark has none, unless the second begins with it. -/
theorem noPair_append_mark {v w : Bytes} {s : UInt8} (hv : s ∉ v) (hw : NoPair s s w)
    (head : w.head? ≠ some s) : NoPair s s (v ++ s :: w) := by
  induction v with
  | nil =>
    cases w with
    | nil => simp
    | cons y w => exact noPair_cons_cons.mpr ⟨fun same => head (by simp [same.2]), hw⟩
  | cons x v ih =>
    simp only [List.mem_cons, not_or] at hv
    have rest := ih hv.2
    cases v with
    | nil => exact noPair_cons_cons.mpr ⟨fun same => hv.1 same.1.symm, rest⟩
    | cons y v => exact noPair_cons_cons.mpr ⟨fun same => hv.1 same.1.symm, rest⟩

theorem noPair_joinNames (names : Loc) : NoPair 47 47 (joinNames names) := by
  induction names with
  | nil => simp [joinNames, joinWith]
  | cons name names ih =>
    cases names with
    | nil => simpa [joinNames, joinWith] using noPair_of_notMem name.valid.2.1
    | cons next rest =>
      exact noPair_append_mark name.valid.2.1 ih (head_joinNames_ne_slash (next :: rest))

theorem generic_of_noPair {v : Bytes} (free : NoPair 47 47 v) : generic v = v := by
  induction v using generic.induct with
  | case1 => rfl
  | case2 b => rfl
  | case3 a b rest double ih => exact absurd double (noPair_cons_cons.mp free).1
  | case4 a b rest single ih =>
    rw [generic, if_neg single, ih (noPair_cons_cons.mp free).2]

@[simp] theorem generic_joinNames (names : Loc) : generic (joinNames names) = joinNames names :=
  generic_of_noPair (noPair_joinNames names)

theorem length_generic_le (v : Bytes) : (generic v).length ≤ v.length := by
  induction v using generic.induct with
  | case1 => simp [generic]
  | case2 b => simp [generic]
  | case3 a b rest double ih =>
    rw [generic, if_pos double]
    exact Nat.le_succ_of_le ih
  | case4 a b rest single ih =>
    rw [generic, if_neg single]
    exact Nat.succ_le_succ ih

@[simp] theorem generic_eq_nil (v : Bytes) : generic v = [] ↔ v = [] := by
  induction v using generic.induct with
  | case1 => simp [generic]
  | case2 b => simp [generic]
  | case3 a b rest double ih =>
    rw [generic, if_pos double, ih]
    simp
  | case4 a b rest single ih => simp [generic, single]

theorem exists_generic_cons (b : UInt8) (rest : Bytes) : ∃ tail, generic (b :: rest) = b :: tail := by
  induction rest generalizing b with
  | nil => exact ⟨[], rfl⟩
  | cons c rest ih =>
    by_cases double : b = 47 ∧ c = 47
    · obtain ⟨rfl, rfl⟩ := double
      rw [generic, if_pos ⟨rfl, rfl⟩]
      exact ih 47
    · rw [generic, if_neg double]
      exact ⟨_, rfl⟩

theorem noPair_generic (v : Bytes) : NoPair 47 47 (generic v) := by
  induction v using generic.induct with
  | case1 => simp [generic]
  | case2 b => simp [generic]
  | case3 a b rest double ih => rwa [generic, if_pos double]
  | case4 a b rest single ih =>
    obtain ⟨tail, shape⟩ := exists_generic_cons b rest
    rw [shape] at ih
    rw [generic, if_neg single, shape]
    exact noPair_cons_cons.mpr ⟨single, ih⟩

@[simp] theorem generic_generic (v : Bytes) : generic (generic v) = generic v :=
  generic_of_noPair (noPair_generic v)

theorem fieldsFrom_generic (current v : Bytes) :
    fieldsFrom isSlash current (generic v) = fieldsFrom isSlash current v := by
  have slash : isSlash 47 = true := by decide
  induction v using generic.induct generalizing current with
  | case1 => rfl
  | case2 b => rfl
  | case3 a b rest double ih =>
    obtain ⟨rfl, rfl⟩ := double
    rw [generic, if_pos ⟨rfl, rfl⟩, ih]
    simp [fieldsFrom, slash]
  | case4 a b rest single ih =>
    rw [generic, if_neg single]
    simp only [fieldsFrom.eq_def isSlash _ (a :: _), ih]

theorem components_generic (v : Bytes) : components (generic v) = components v :=
  fieldsFrom_generic [] v

theorem cstr_generic (v : Bytes) : cstr (generic v) = generic (cstr v) := by
  induction v using generic.induct with
  | case1 => rfl
  | case2 b =>
    by_cases zero : b = 0
    · subst zero
      rfl
    · simp [generic, cstr, zero]
  | case3 a b rest double ih =>
    obtain ⟨rfl, rfl⟩ := double
    rw [generic, if_pos ⟨rfl, rfl⟩, ih]
    simp [cstr_cons, generic]
  | case4 a b rest single ih =>
    rw [generic, if_neg single, cstr_cons, cstr_cons]
    by_cases zero : a = 0
    · simp [zero, generic]
    · rw [if_neg zero, if_neg zero, ih, cstr_cons]
      by_cases zero' : b = 0
      · simp [zero', generic]
      · rw [if_neg zero', generic, if_neg single]

/-- A path and its generic form name the same directory. -/
theorem isDirectory_generic (disk : Disk) (path : Bytes) :
    isDirectory disk (generic path) = isDirectory disk path := by
  have filled : (generic (cstr path)).isEmpty = (cstr path).isEmpty := by
    rw [Bool.eq_iff_iff, List.isEmpty_iff, List.isEmpty_iff, generic_eq_nil]
  simp only [isDirectory, locate, cstr_generic, components_generic, filled]

end Joining
end FileSystem
