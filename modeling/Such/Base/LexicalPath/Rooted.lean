import Such.Base.FileSystem.Places
import Such.Base.LexicalPath

/-! Absolute POSIX paths in normal form: a slash, names joined by single slashes, and a slash at
the end where the path was spelt as a directory. -/
namespace LexicalPath
open ByteText FileSystem

def rootedText (names : Loc) (slash : Bool) : Bytes :=
  47 :: joinNames names ++ if slash then [47] else []

section Text
variable {names d : Loc} {s : Name}

theorem zero_notMem_rootedText (names : Loc) (slash : Bool) : 0 ∉ rootedText names slash := by
  cases slash <;> simp [rootedText, zero_notMem_joinNames]

theorem components_rootedText (names : Loc) (slash : Bool) :
    components (rootedText names slash) = names.map Name.bytes := by
  have lead : components (47 :: joinNames names) = names.map Name.bytes := by
    have split := components_append_slash [] (joinNames names)
    rw [List.nil_append, components_joinNames] at split
    exact split
  cases slash with
  | false => simpa [rootedText] using lead
  | true =>
    have tail := components_append_slash (47 :: joinNames names) []
    rw [lead] at tail
    simpa [rootedText, components] using tail

@[simp] theorem locate_rootedText (names : Loc) (slash : Bool) :
    locate (rootedText names slash) = names := by
  rw [locate, cstr_of_notMem (zero_notMem_rootedText names slash), components_rootedText,
    foldl_enter_names, List.nil_append]

/-- Without the slash at the end it is a plain path. -/
theorem rootedText_plain (d : Loc) (s : Name) : Plain (rootedText (d ++ [s]) false) (d ++ [s]) := by
  refine ⟨zero_notMem_rootedText _ _, components_rootedText _ _, ?_⟩
  have last : FileSystem.filename (rootedText (d ++ [s]) false) = s.bytes := by
    have after := filename_append_slash [] (joinNames (d ++ [s]))
    rw [List.nil_append, filename_joinNames] at after
    simpa [rootedText] using after
  rw [last]
  exact s.valid.1

theorem rootedText_slash (names : Loc) : rootedText names true = rootedText names false ++ [47] := by
  simp [rootedText]

end Text

section NormalForm

theorem pushPart_isName {stack : List Bytes} {part : Bytes} (all : ∀ c ∈ stack, IsName c)
    (field : IsField isSlash part) (clear : 0 ∉ part) : ∀ c ∈ pushPart true stack part, IsName c := by
  simp only [pushPart]
  split
  · exact all
  · rename_i notDot
    split
    · cases stack with
      | nil =>
        intro c member
        cases member
      | cons top below =>
        have named := all top List.mem_cons_self
        dsimp only
        rw [if_neg named.2.2.2.2]
        exact fun c member => all c (List.mem_cons_of_mem _ member)
    · rename_i notDots
      have slash : 47 ∉ part := fun member => absurd (field.2 47 member) (by decide)
      exact List.forall_mem_cons.mpr ⟨⟨field.1, slash, clear, notDot, notDots⟩, all⟩

theorem foldl_pushPart_isName {parts stack : List Bytes} (all : ∀ c ∈ stack, IsName c)
    (fields : ∀ part ∈ parts, IsField isSlash part ∧ 0 ∉ part) :
    ∀ c ∈ parts.foldl (pushPart true) stack, IsName c := by
  induction parts generalizing stack with
  | nil => exact all
  | cons part parts ih =>
    rw [List.forall_mem_cons] at fields
    exact ih (pushPart_isName all fields.1.1 fields.1.2) fields.2

/-- An absolute path is brought to names under the root. -/
theorem lexicallyNormal_rooted {path : Bytes} (absolute : isAbsolute path = true) (clear : 0 ∉ path) :
    ∃ names : Loc, lexicallyNormal .posix path =
      rootedText names (decide (names ≠ []) && endsInDirectory .posix path) := by
  have filled : path ≠ [] := by
    rintro rfl
    cases absolute
  have rooted : LexicalPath.rooted .posix path = true := by
    have head : path.head? = some 47 := by simpa [isAbsolute] using absolute
    simp [LexicalPath.rooted, afterRootName, rootNameLength, head, LexicalPath.isSeparator]
  have named : ∀ c ∈ (parts .posix path).foldl (pushPart true) [], IsName c := by
    refine foldl_pushPart_isName (by simp) ?_
    intro part member
    have member : part ∈ components path := member
    exact ⟨fields_isField member, fun zero => clear ((infix_fields member).subset zero)⟩
  unfold lexicallyNormal
  rw [if_neg (by simpa using filled), rooted]
  dsimp only
  generalize (parts .posix path).foldl (pushPart true) [] = stack at named
  obtain ⟨names, same⟩ := @exists_names stack.reverse fun c member =>
    named c (List.mem_reverse.mp member)
  refine ⟨names, ?_⟩
  cases stack with
  | nil =>
    have none : names = [] := by simpa using same
    subst none
    rfl
  | cons top below =>
    have some_ : names ≠ [] := by
      rintro rfl
      simp at same
    have notDots : top ≠ [46, 46] := (named top List.mem_cons_self).2.2.2.2
    dsimp only
    rw [same]
    simp [rootedText, rootName, rootNameLength, preferred, joinNames, some_, notDots]

/-- A path is spelt as a directory when it ends in a slash or in a dot link. -/
theorem endsInDirectory_posix {path : Bytes} (filled : path ≠ []) : endsInDirectory .posix path = true ↔
    FileSystem.filename path = [] ∨ FileSystem.filename path = [46] ∨
      FileSystem.filename path = [46, 46] := by
  have whole : afterRootName .posix path = path := List.drop_zero
  have split : parts .posix path = components path := congrArg (fields isSlash) whole
  simp only [endsInDirectory]
  rw [whole, split, components_eq]
  by_cases bare : FileSystem.filename path = []
  · obtain ⟨v, shape⟩ := (stem_shape path).resolve_left fun empty => filled (by
      rw [← stem_append_filename path, empty, bare, List.append_nil])
    have last : path.getLast? = some 47 := by
      rw [← stem_append_filename path, bare, List.append_nil, shape, List.getLast?_concat]
    simp [last, bare, LexicalPath.isSeparator]
  · have last : (path.getLast?.any (LexicalPath.isSeparator .posix)) = false := by
      have other := last_ne_slash bare
      cases found : path.getLast? with
      | none => rfl
      | some b =>
        rw [found] at other
        simpa [LexicalPath.isSeparator] using other
    rw [last, if_neg (by simpa using bare), List.getLast?_concat]
    simp [bare]

theorem foldl_pushPart_map (names : Loc) (stack : List Bytes) :
    (names.map Name.bytes).foldl (pushPart true) stack = (names.map Name.bytes).reverse ++ stack := by
  induction names generalizing stack with
  | nil => rfl
  | cons n names ih =>
    have pushed : pushPart true stack n.bytes = n.bytes :: stack := by
      unfold pushPart
      rw [if_neg n.valid.2.2.2.1, if_neg n.valid.2.2.2.2]
    rw [List.map_cons, List.foldl_cons, pushed, ih]
    simp

/-- A text of names is in normal form. -/
theorem lexicallyNormal_rootedText {names : Loc} {slash : Bool} (below : slash = true → names ≠ []) :
    lexicallyNormal .posix (rootedText names slash) = rootedText names slash := by
  have split : parts .posix (rootedText names slash) = names.map Name.bytes :=
    components_rootedText names slash
  have absolute : LexicalPath.rooted .posix (rootedText names slash) = true := rfl
  unfold lexicallyNormal
  rw [if_neg (by simp [rootedText]), absolute, split, foldl_pushPart_map, List.append_nil]
  dsimp only
  rcases List.eq_nil_or_concat names with rfl | ⟨front, last, rfl⟩
  · cases slash with
    | false => rfl
    | true => exact absurd rfl (below rfl)
  · rw [List.concat_eq_append]
    have ends : endsInDirectory .posix (rootedText (front ++ [last]) slash) = slash := by
      cases slash with
      | true =>
        rw [endsInDirectory_posix (by simp [rootedText]), rootedText_slash]
        exact .inl (filename_append_slash _ [])
      | false =>
        have name := (rootedText_plain front last).split.2
        rw [← Bool.not_eq_true, endsInDirectory_posix (by simp [rootedText]), name]
        exact fun bad => bad.elim last.valid.1 (·.elim last.valid.2.2.2.1 last.valid.2.2.2.2)
    have reversed : ((front ++ [last]).map Name.bytes).reverse =
        last.bytes :: (front.map Name.bytes).reverse := by simp
    rw [reversed]
    dsimp only
    rw [ends]
    simp [rootedText, rootName, rootNameLength, preferred, joinNames, last.valid.2.2.2.2]

end NormalForm

/-- An absolute POSIX path in its lexically normal form. -/
structure NormalPath where
  text : Bytes
  absolute : isAbsolute text = true
  clear : 0 ∉ text
  normal : lexicallyNormal .posix text = text

/-- The names of the path, none of them for the root. -/
def NormalPath.components (p : NormalPath) : List Bytes := FileSystem.components p.text

/-- A path in normal form is its names, and spelt as a directory only where it has one. -/
theorem NormalPath.exists_rootedText (p : NormalPath) : ∃ (names : Loc) (slash : Bool),
    p.text = rootedText names slash ∧ p.components = names.map Name.bytes ∧
      (slash = true → names ≠ []) := by
  obtain ⟨names, same⟩ := lexicallyNormal_rooted p.absolute p.clear
  rw [p.normal] at same
  refine ⟨names, _, same, ?_, ?_⟩
  · rw [NormalPath.components, same, components_rootedText]
  · intro slash
    simp only [Bool.and_eq_true, decide_eq_true_eq] at slash
    exact slash.1

theorem last_rootedText {names : Loc} (below : names ≠ []) :
    (rootedText names false).getLast? ≠ some 47 := by
  obtain ⟨d, s, rfl⟩ := (List.eq_nil_or_concat names).resolve_left below
  rw [List.concat_eq_append]
  exact last_ne_slash (rootedText_plain d s).named

theorem generic_rootedText {names : Loc} {slash : Bool} (below : slash = true → names ≠ []) :
    generic (rootedText names slash) = rootedText names slash := by
  apply generic_of_noPair
  have single : NoPair 47 47 (rootedText names false) := by
    have front := noPair_append_mark (List.not_mem_nil (a := 47)) (noPair_joinNames names)
      (head_joinNames_ne_slash names)
    simpa [rootedText] using front
  cases slash with
  | false => exact single
  | true =>
    rw [rootedText_slash]
    exact noPair_append_singleton single fun both => last_rootedText (below rfl) both.1

theorem NormalPath.genericText_text (p : NormalPath) : genericText .posix p.text = p.text := by
  obtain ⟨names, slash, text, -, below⟩ := p.exists_rootedText
  rw [text]
  exact generic_rootedText below

/-- The slash at the end is all that two spellings of one place differ in. -/
theorem stripTrailing_rootedText {names : Loc} {slash : Bool} (below : slash = true → names ≠ []) :
    stripTrailing (rootedText names slash) = rootedText names false := by
  have bare : ∀ names : Loc, names ≠ [] →
      (rootedText names false).rdropWhile (· == 47) = rootedText names false := by
    intro names below
    rw [List.rdropWhile_eq_self_iff]
    intro filled slash
    apply last_rootedText below
    rw [List.getLast?_eq_some_getLast filled, beq_iff_eq.1 slash]
  have filled : (rootedText names false).isEmpty = false := rfl
  cases slash with
  | false =>
    by_cases top : names = []
    · rw [top]
      decide
    · rw [stripTrailing, bare names top, filled]
      rfl
  | true =>
    rw [rootedText_slash, stripTrailing, List.rdropWhile_concat_pos _ _ _ (by decide),
      bare names (below rfl), filled]
    rfl

/-- A name behind a text of names. -/
theorem joinName_rootedText {names : Loc} {slash : Bool} (below : slash = true → names ≠ [])
    (n : Name) : joinName .posix (rootedText names slash) n.bytes = rootedText (names ++ [n]) false := by
  have rest : (afterRootName .posix (rootedText names slash)).isEmpty = false := rfl
  have longer : names ≠ [] → rootedText (names ++ [n]) false = rootedText names false ++ 47 :: n.bytes := by
    intro filled
    have joined : joinNames (names ++ [n]) = joinNames names ++ 47 :: n.bytes := by
      rw [joinNames, List.map_append, joinWith_append (by simpa using filled) (by simp)]
      rfl
    simp [rootedText, joined]
  rw [joinName, rest]
  by_cases top : names = []
  · subst top
    cases slash with
    | true => exact absurd rfl (below rfl)
    | false => simp [rootedText, joinNames, joinWith, isSeparator]
  · cases slash with
    | true =>
      rw [rootedText_slash, longer top]
      simp [isSeparator]
    | false =>
      have last := last_rootedText top
      rw [longer top, if_neg (by simp)]
      cases found : (rootedText names false).getLast? with
      | none => simp [preferred]
      | some b =>
        rw [found] at last
        have other : b ≠ 47 := by simpa using last
        simp [isSeparator, preferred, other]
/-- A spelling goes on with a slash behind another place's text, or is that text, exactly where
the other's names come first in it. -/
theorem rootedText_goesOn_iff {names above : Loc} {slash : Bool} (below : above ≠ []) :
    (rootedText names slash = rootedText above false ∨
        ∃ rest, rootedText names slash = rootedText above false ++ 47 :: rest) ↔
      above.map Name.bytes <+: names.map Name.bytes := by
  constructor
  · rintro (same | ⟨rest, longer⟩)
    · rw [← components_rootedText names slash, same, components_rootedText]
    · rw [← components_rootedText names slash, longer, components_append_slash,
        components_rootedText]
      exact List.prefix_append _ _
  · rintro ⟨more, longer⟩
    obtain ⟨front, back, rfl, front_eq, -⟩ := List.map_eq_append_iff.1 longer.symm
    have injective : Function.Injective Name.bytes := by
      rintro ⟨a, _⟩ ⟨b, _⟩ same
      simpa using same
    obtain rfl := List.map_injective_iff.2 injective front_eq
    by_cases top : back = []
    · subst top
      rw [List.append_nil]
      cases slash with
      | false => exact .inl rfl
      | true => exact .inr ⟨[], rootedText_slash _⟩
    · refine .inr ⟨joinNames back ++ if slash then [47] else [], ?_⟩
      have joined : joinNames (front ++ back) = joinNames front ++ 47 :: joinNames back := by
        rw [joinNames, List.map_append, joinWith_append (by simpa using below) (by simpa using top)]
        rfl
      simp [rootedText, joined]

end LexicalPath
