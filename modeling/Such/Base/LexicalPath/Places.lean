import Such.Base.LexicalPath

/-! Absolute Windows paths in normal form: a root name, then a separator, then entry names
joined by single separators. -/
namespace LexicalPath
open ByteText

/-- What Windows lets an entry of a directory be called: no separator, and neither a dot nor a
blank at the end. -/
def IsEntryName (v : Bytes) : Prop :=
  v ≠ [] ∧ (∀ b ∈ v, isSeparator .windows b = false) ∧ v.getLast? ≠ some 46 ∧ v.getLast? ≠ some 32

instance (v : Bytes) : Decidable (IsEntryName v) := inferInstanceAs (Decidable (_ ∧ _))

/-- A drive, or a server or device namespace. -/
inductive RootName : Bytes → Prop where
  | drive {d : UInt8} (letter : isDriveLetter d = true) : RootName [d, 58]
  | server {s : Bytes} (filled : s ≠ []) (plain : ∀ b ∈ s, isSeparator .windows b = false) :
    RootName (92 :: 92 :: s)

/-- An absolute path that the system can tell an entry by. -/
structure Place where
  root : Bytes
  names : List Bytes
  isRoot : RootName root
  named : ∀ n ∈ names, IsEntryName n

def Place.text (p : Place) : Bytes := p.root ++ 92 :: joinWith 92 p.names

def Place.child (p : Place) (n : Bytes) (named : IsEntryName n) : Place :=
  { p with
    names := p.names ++ [n]
    named := by
      intro m member
      rcases List.mem_append.mp member with inside | last
      · exact p.named m inside
      · rwa [List.mem_singleton.mp last] }

/-- The place that so many names lead to. -/
def Place.above (p : Place) (depth : Nat) : Place :=
  { p with
    names := p.names.take depth
    named := fun m member => p.named m (List.mem_of_mem_take member) }

section Names
variable {n : Bytes} {names : List Bytes}

theorem IsEntryName.isField (named : IsEntryName n) : IsField (isSeparator .windows) n :=
  ⟨named.1, named.2.1⟩

theorem IsEntryName.noDots (named : IsEntryName n) : n ≠ [46] ∧ n ≠ [46, 46] := by
  constructor
  · rintro rfl
    exact named.2.2.1 rfl
  · rintro rfl
    exact named.2.2.1 rfl

theorem head_joinWith_plain (named : ∀ n ∈ names, IsEntryName n) :
    (joinWith 92 names).head?.any (isSeparator .windows) = false := by
  cases names with
  | nil => rfl
  | cons n names =>
    obtain ⟨filled, plain, -⟩ := named n (by simp)
    obtain ⟨b, v, rfl⟩ := List.exists_cons_of_ne_nil filled
    cases names with
    | nil => exact plain b (by simp)
    | cons next names => exact plain b (by simp)

theorem joinWith_concat (init : List Bytes) (n : Bytes) : joinWith 92 (init ++ [n]) =
    if init = [] then n else joinWith 92 init ++ 92 :: n := by
  split
  · rename_i empty
    subst empty
    rfl
  · rename_i filled
    exact joinWith_append filled (by simp)

theorem getLast_joinWith (init : List Bytes) (filled : n ≠ []) :
    (joinWith 92 (init ++ [n])).getLast? = n.getLast? := by
  obtain ⟨b, last⟩ := Option.ne_none_iff_exists'.mp (mt List.getLast?_eq_none_iff.mp filled)
  rw [joinWith_concat]
  split
  · rfl
  · rw [List.getLast?_append, List.getLast?_cons, last]
    rfl

theorem fields_names (named : ∀ n ∈ names, IsEntryName n) :
    fields (isSeparator .windows) (92 :: joinWith 92 names) = names := by
  have split := fields_append_sep [] (joinWith 92 names) (show isSeparator .windows 92 = true by decide)
  rw [List.nil_append, fields_nil, List.nil_append] at split
  rw [split]
  exact fields_joinWith_of_isField (by decide) fun n member => (named n member).isField

theorem foldl_pushPart_names (named : ∀ n ∈ names, IsEntryName n) (stack : List Bytes) :
    names.foldl (pushPart true) stack = names.reverse ++ stack := by
  induction names generalizing stack with
  | nil => rfl
  | cons n names ih =>
    rw [List.forall_mem_cons] at named
    have pushed : pushPart true stack n = n :: stack := by
      simp only [pushPart]
      rw [if_neg named.1.noDots.1, if_neg named.1.noDots.2]
    rw [List.foldl_cons, pushed, ih named.2, List.reverse_cons, List.append_assoc,
      List.singleton_append]

end Names

section Roots
variable {root : Bytes}

theorem RootName.length_eq (isRoot : RootName root) (rest : Bytes) :
    rootNameLength .windows (root ++ 92 :: rest) = root.length := by
  cases isRoot with
  | drive letter => simp [rootNameLength, letter]
  | @server s filled free =>
    obtain ⟨c, v, rfl⟩ := List.exists_cons_of_ne_nil filled
    have whole : ((c :: v) ++ 92 :: rest).takeWhile (!isSeparator .windows ·) = c :: v := by
      rw [takeWhile_append_stop (by decide), List.takeWhile_eq_self_iff]
      intro b member
      rw [free b member]
      rfl
    have first : isSeparator .windows c = false := free c (by simp)
    simp only [List.cons_append] at whole ⊢
    simp only [rootNameLength]
    rw [if_neg (by decide), if_neg (by decide)]
    split
    · rename_i device
      cases v with
      | nil => rfl
      | cons d v =>
        have second : isSeparator .windows d = false := free d (by simp)
        simp [isDevice, second] at device
    · rw [if_pos (by simp only [List.head?_cons, Option.any_some, first]; decide), whole]
      simp only [List.length_cons]
      omega

theorem RootName.slash (isRoot : RootName root) : 47 ∉ root := by
  cases isRoot with
  | @drive d letter =>
    simp only [List.mem_cons, List.not_mem_nil, or_false, not_or]
    refine ⟨?_, by decide⟩
    rintro rfl
    exact absurd letter (by decide)
  | @server s filled plain =>
    simp only [List.mem_cons, not_or]
    exact ⟨by decide, by decide, fun member => absurd (plain 47 member) (by decide)⟩

end Roots

section Text
variable (p : Place)

theorem Place.rootNameLength_text : rootNameLength .windows p.text = p.root.length :=
  p.isRoot.length_eq _

theorem Place.afterRootName_text : afterRootName .windows p.text = 92 :: joinWith 92 p.names := by
  rw [afterRootName, p.rootNameLength_text, Place.text, List.drop_left]

theorem Place.rooted_text : rooted .windows p.text = true := by
  rw [rooted, p.afterRootName_text]
  rfl

theorem Place.parts_text : parts .windows p.text = p.names := by
  rw [parts, p.afterRootName_text, fields_names p.named]

theorem Place.rootName_text : rootName .windows p.text = p.root := by
  rw [rootName, p.rootNameLength_text, Place.text, List.take_left]
  have fixed : ∀ b ∈ p.root, (if isSeparator .windows b then preferred .windows else b) = b := by
    intro b member
    have other : b ≠ 47 := fun same => p.isRoot.slash (same ▸ member)
    split
    · rename_i separator
      have same : b = 92 := by simpa [isSeparator, other] using separator
      rw [same]
      rfl
    · rfl
  exact (List.map_congr_left fixed).trans (List.map_id' p.root)

theorem Place.text_ne_nil : p.text ≠ [] := by simp [Place.text]

/-- A place below the root does not end like a directory. -/
theorem Place.endsInDirectory_text (below : p.names ≠ []) :
    endsInDirectory .windows p.text = false := by
  obtain ⟨init, n, shape⟩ := (List.eq_nil_or_concat p.names).resolve_left below
  rw [List.concat_eq_append] at shape
  have named : IsEntryName n := p.named n (by simp [shape])
  have last : (92 :: joinWith 92 p.names).getLast?.any (isSeparator .windows) = false := by
    obtain ⟨b, found⟩ := Option.ne_none_iff_exists'.mp (mt List.getLast?_eq_none_iff.mp named.1)
    rw [shape, List.getLast?_cons, getLast_joinWith init named.1, found]
    exact named.2.1 b (List.mem_of_getLast? found)
  simp only [endsInDirectory, p.afterRootName_text, p.parts_text, last]
  simp [shape, named.noDots]

@[simp] theorem Place.lexicallyNormal_text : lexicallyNormal .windows p.text = p.text := by
  have filled : p.text.isEmpty = false := by simpa using p.text_ne_nil
  simp only [lexicallyNormal, filled, p.rooted_text, p.rootName_text, p.parts_text,
    foldl_pushPart_names p.named, List.append_nil, Bool.false_eq_true, if_false, if_true]
  cases reversed : p.names.reverse with
  | nil =>
    have none : p.names = [] := by simpa using reversed
    simp [Place.text, none, joinWith, preferred]
  | cons top below =>
    have some_ : p.names ≠ [] := by
      intro none
      simp [none] at reversed
    have back : (top :: below).reverse = p.names := by rw [← reversed, List.reverse_reverse]
    dsimp only
    rw [back, p.endsInDirectory_text some_]
    simp [Place.text, preferred]

/-- The part of a parent path behind the root. -/
def trimmedStem (rest : Bytes) : Bytes :=
  (rest.rdropWhile (!isSeparator .windows ·)).rdropWhile (isSeparator .windows)

theorem Place.parentPath_text : parentPath .windows p.text =
    p.root ++ 92 :: trimmedStem (joinWith 92 p.names) := by
  have lead : (92 :: joinWith 92 p.names).takeWhile (isSeparator .windows) = [92] := by
    have head := head_joinWith_plain p.named
    rw [List.takeWhile_cons_of_pos (by decide)]
    cases shape : joinWith 92 p.names with
    | nil => rfl
    | cons b v =>
      rw [shape] at head
      have plain : isSeparator .windows b = false := head
      rw [List.takeWhile_cons_of_neg (by simp [plain])]
  simp only [parentPath, p.afterRootName_text, p.rootNameLength_text, lead]
  rw [Place.text, List.take_left]
  simp [trimmedStem]

theorem rdropWhile_of_last {keep : UInt8 → Bool} {v : Bytes}
    (last : v.getLast?.any keep = false) : v.rdropWhile keep = v := by
  rw [List.rdropWhile_eq_self_iff]
  intro filled kept
  rw [List.getLast?_eq_some_getLast filled, Option.any_some, kept] at last
  cases last

theorem last_joinWith_plain {names : List Bytes} (named : ∀ n ∈ names, IsEntryName n) :
    (joinWith 92 names).getLast?.any (isSeparator .windows) = false := by
  rcases List.eq_nil_or_concat names with rfl | ⟨init, n, rfl⟩
  · rfl
  · rw [List.concat_eq_append] at named ⊢
    obtain ⟨filled, plain, -⟩ := named n (by simp)
    obtain ⟨b, found⟩ := Option.ne_none_iff_exists'.mp (mt List.getLast?_eq_none_iff.mp filled)
    rw [getLast_joinWith init filled, found]
    exact plain b (List.mem_of_getLast? found)

theorem trimmedStem_concat {init : List Bytes} {n : Bytes}
    (named : ∀ m ∈ init ++ [n], IsEntryName m) :
    trimmedStem (joinWith 92 (init ++ [n])) = joinWith 92 init := by
  have name := named n (by simp)
  have all : ∀ b ∈ n, (!isSeparator .windows b) = true := by
    intro b member
    rw [name.2.1 b member]
    rfl
  rw [joinWith_concat, trimmedStem]
  split
  · rename_i empty
    subst empty
    rw [List.rdropWhile_eq_nil_iff.mpr all]
    rfl
  · rename_i filled
    have inner := last_joinWith_plain fun m member => named m (List.mem_append_left [n] member)
    rw [rdropWhile_append_stop (by decide), List.rdropWhile_eq_nil_iff.mpr all,
      List.rdropWhile_concat_pos _ _ _ (by decide), rdropWhile_of_last inner]

theorem Place.parentPath_child (n : Bytes) (named : IsEntryName n) :
    parentPath .windows (p.child n named).text = p.text := by
  rw [Place.parentPath_text]
  change p.root ++ 92 :: trimmedStem (joinWith 92 (p.names ++ [n])) = _
  rw [trimmedStem_concat (p.child n named).named, Place.text]

theorem Place.parentPath_top (top : p.names = []) : parentPath .windows p.text = p.text := by
  rw [p.parentPath_text, Place.text, top]
  rfl

theorem Place.above_succ {depth : Nat} {n : Bytes} (found : p.names[depth]? = some n)
    (named : IsEntryName n) : (p.above (depth + 1)).text = ((p.above depth).child n named).text := by
  obtain ⟨inside, same⟩ := List.getElem?_eq_some_iff.mp found
  have names : p.names.take (depth + 1) = p.names.take depth ++ [n] := by
    rw [← same, List.take_append_getElem]
  change p.root ++ 92 :: joinWith 92 (p.names.take (depth + 1)) = _
  rw [names]
  rfl

theorem Place.above_all : (p.above p.names.length).text = p.text := by
  change p.root ++ 92 :: joinWith 92 (p.names.take p.names.length) = _
  rw [List.take_length, Place.text]

theorem Place.parentPath_above {depth : Nat} (inside : depth < p.names.length) :
    parentPath .windows (p.above (depth + 1)).text = (p.above depth).text := by
  have found : p.names[depth]? = some p.names[depth] := List.getElem?_eq_getElem inside
  rw [p.above_succ found (p.named _ (List.getElem_mem inside)), Place.parentPath_child]

/-- The parent of a place is a place. -/
theorem Place.exists_parentPath : ∃ q : Place, parentPath .windows p.text = q.text := by
  cases size : p.names.length with
  | zero => exact ⟨p, p.parentPath_top (List.length_eq_zero_iff.mp size)⟩
  | succ depth =>
    refine ⟨p.above depth, ?_⟩
    rw [← p.parentPath_above (by omega), ← size, p.above_all]

theorem Place.length_names_lt : p.names.length < p.text.length := by
  have counted : ∀ names : List Bytes, (∀ n ∈ names, n ≠ []) →
      names.length ≤ (joinWith 92 names).length := by
    intro names
    induction names with
    | nil => simp
    | cons n names ih =>
      intro filled
      rw [List.forall_mem_cons] at filled
      have first := List.length_pos_iff.mpr filled.1
      have rest := ih filled.2
      cases names with
      | nil =>
        change 1 ≤ n.length
        omega
      | cons next names =>
        change (next :: names).length + 1 ≤ (n ++ 92 :: joinWith 92 (next :: names)).length
        simp only [List.length_append, List.length_cons] at rest ⊢
        omega
  have names := counted p.names fun n member => (p.named n member).1
  rw [Place.text, List.length_append, List.length_cons]
  omega

theorem Place.joinName_text (n : Bytes) (named : IsEntryName n) :
    joinName .windows p.text n = (p.child n named).text := by
  have last : p.text.getLast?.any (isSeparator .windows) = decide (p.names = []) := by
    have inner := last_joinWith_plain p.named
    rw [Place.text, List.getLast?_append, List.getLast?_cons]
    by_cases top : p.names = []
    · simp [top, joinWith, isSeparator]
    · obtain ⟨b, found⟩ := Option.ne_none_iff_exists'.mp (mt List.getLast?_eq_none_iff.mp
        (mt (joinWith_eq_nil fun m member => (p.named m member).1).mp top))
      rw [found] at inner ⊢
      simpa [top] using inner
  simp only [joinName, p.afterRootName_text, last]
  change _ = p.root ++ 92 :: joinWith 92 (p.names ++ [n])
  rw [joinWith_concat]
  by_cases top : p.names = []
  · simp [top, Place.text, joinWith]
  · simp [top, Place.text, preferred]

end Text

section Generic

def rootSlashes (root : Bytes) : Nat := (root.takeWhile (· == 92)).length

def rootSegment (root : Bytes) : Bytes := root.dropWhile (· == 92)

theorem RootName.segment {root : Bytes} (isRoot : RootName root) :
    IsField (isSeparator .windows) (rootSegment root) := by
  cases isRoot with
  | @drive d letter =>
    have other : (d == 92) = false := by
      rw [beq_eq_false_iff_ne]
      rintro rfl
      exact absurd letter (by decide)
    have slash : isSeparator .windows d = false := by
      simp only [isSeparator, other, Bool.or_false, beq_eq_false_iff_ne]
      rintro rfl
      exact absurd letter (by decide)
    rw [rootSegment, List.dropWhile_cons_of_neg (by simp [other])]
    refine ⟨by simp, ?_⟩
    simp only [List.mem_cons, List.not_mem_nil, or_false, forall_eq_or_imp, forall_eq]
    exact ⟨slash, by decide⟩
  | @server s filled plain =>
    obtain ⟨c, v, rfl⟩ := List.exists_cons_of_ne_nil filled
    have first : (c == 92) = false := by
      have plain := plain c (by simp)
      simp only [isSeparator, Bool.or_eq_false_iff] at plain
      exact plain.2
    rw [rootSegment, List.dropWhile_cons_of_pos (by decide), List.dropWhile_cons_of_pos (by decide),
      List.dropWhile_cons_of_neg (by simp [first])]
    exact ⟨filled, plain⟩

def toSlash (b : UInt8) : UInt8 := if b = 92 then 47 else b

theorem map_toSlash_plain {v : Bytes} (plain : ∀ b ∈ v, isSeparator .windows b = false) :
    v.map toSlash = v := by
  have fixed : ∀ b ∈ v, toSlash b = b := by
    intro b member
    have other : b ≠ 92 := by
      rintro rfl
      exact absurd (plain 92 member) (by decide)
    rw [toSlash, if_neg other]
  exact (List.map_congr_left fixed).trans (List.map_id' v)

theorem map_toSlash_joinWith {names : List Bytes}
    (plain : ∀ n ∈ names, ∀ b ∈ n, isSeparator .windows b = false) :
    (joinWith 92 names).map toSlash = joinWith 47 names := by
  induction names with
  | nil => rfl
  | cons n names ih =>
    rw [List.forall_mem_cons] at plain
    cases names with
    | nil => exact map_toSlash_plain plain.1
    | cons next names =>
      change (n ++ 92 :: joinWith 92 (next :: names)).map toSlash = _
      rw [List.map_append, List.map_cons, map_toSlash_plain plain.1, ih plain.2]
      rfl

theorem RootName.map_toSlash {root : Bytes} (isRoot : RootName root) :
    root.map toSlash = List.replicate (rootSlashes root) 47 ++ rootSegment root := by
  have split : root.takeWhile (· == 92) ++ rootSegment root = root := List.takeWhile_append_dropWhile
  have lead : (root.takeWhile (· == 92)).map toSlash = List.replicate (rootSlashes root) 47 := by
    rw [List.eq_replicate_iff]
    refine ⟨List.length_map _, ?_⟩
    intro b member
    obtain ⟨c, inside, rfl⟩ := List.mem_map.mp member
    have same : c = 92 := by simpa using List.mem_takeWhile_imp inside
    rw [same]
    rfl
  conv_lhs => rw [← split]
  rw [List.map_append, lead, map_toSlash_plain isRoot.segment.2]

theorem notSlash_last {v w : Bytes} (field : IsField (isSeparator .windows) v) :
    (w ++ v).getLast?.any (· == 47) = false := by
  obtain ⟨b, found⟩ := Option.ne_none_iff_exists'.mp (mt List.getLast?_eq_none_iff.mp field.1)
  rw [List.getLast?_append, found, Option.some_or, Option.any_some, beq_eq_false_iff_ne]
  rintro rfl
  exact absurd (field.2 47 (List.mem_of_getLast? found)) (by decide)

/-- What the key of a place is made from. -/
theorem Place.stripTrailing_text (p : Place) : stripTrailing (genericText .windows p.text) =
    List.replicate (rootSlashes p.root) 47 ++ joinWith 47 (rootSegment p.root :: p.names) := by
  have segment := p.isRoot.segment
  have generic : genericText .windows p.text = List.replicate (rootSlashes p.root) 47 ++
      rootSegment p.root ++ 47 :: joinWith 47 p.names := by
    change p.text.map LexicalPath.toSlash = _
    rw [Place.text, List.map_append, p.isRoot.map_toSlash, List.map_cons,
      map_toSlash_joinWith fun n member => (p.named n member).2.1]
    rfl
  simp only [stripTrailing, generic]
  rcases List.eq_nil_or_concat p.names with top | ⟨init, n, below⟩
  · rw [top, joinWith, List.rdropWhile_concat_pos _ _ _ (by decide),
      rdropWhile_of_last (notSlash_last segment), if_neg (by simp [segment.1])]
    rfl
  · rw [List.concat_eq_append] at below
    have field : IsField (isSeparator .windows) n := (p.named n (by simp [below])).isField
    obtain ⟨w, shape⟩ : ∃ w, List.replicate (rootSlashes p.root) 47 ++ rootSegment p.root ++
        47 :: joinWith 47 p.names = w ++ n := by
      rw [below]
      by_cases first : init = []
      · exact ⟨_, by rw [first, List.append_cons]; rfl⟩
      · exact ⟨_, by rw [joinWith_append first (by simp), List.append_cons, ← List.append_assoc,
          List.append_cons _ 47]; rfl⟩
    rw [shape, rdropWhile_of_last (notSlash_last field), if_neg (by simp [field.1]), ← shape]
    obtain ⟨next, names, cons⟩ := List.exists_cons_of_ne_nil (show p.names ≠ [] by simp [below])
    rw [cons, List.append_assoc]
    rfl

end Generic
end LexicalPath
