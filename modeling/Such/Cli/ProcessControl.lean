import Such.Base.LexicalPath.Rooted
import Such.Runtime.IndexPathPolicy.Keys

/-! Which running processes belong to this installation, by the place of their executables on a
POSIX host, and how that test compares with the index policy's. -/
namespace Such.ProcessControl
open ByteText LexicalPath FileSystem IndexPathPolicy

def targetNames : List Bytes := ["such", "Such", "SuchCLI", "SuchMCP"].map lit

def isTargetName (name : Bytes) : Bool := targetNames.contains name

def pathEqualOrWithin (candidate root : Bytes) : Bool :=
  let candidateText := genericText .posix (lexicallyNormal .posix candidate)
  let rootText := stripTrailing (genericText .posix (lexicallyNormal .posix root))
  if candidateText = rootText then true
  else
    decide (rootText.length < candidateText.length) && startsWith candidateText rootText &&
      candidateText[rootText.length]? == some 47

/-- Whether a process is stopped with the others; its executable is empty where unknown. -/
def isOwnProcess (selfExecutable name executable : Bytes) : Bool :=
  isTargetName name && !executable.isEmpty &&
    pathEqualOrWithin executable (parentPath .posix selfExecutable)

variable {candidate root : Bytes} {names above : Loc} {slash : Bool}

/-- The test at the character behind the root's text, whatever that text ends in. -/
theorem goesOn_iff : (if candidate = root then true
      else decide (root.length < candidate.length) && startsWith candidate root &&
        candidate[root.length]? == some 47) = true ↔
    candidate = root ∨ ∃ rest, candidate = root ++ 47 :: rest := by
  by_cases same : candidate = root
  · simp [same]
  · rw [if_neg same]
    constructor
    · intro within
      simp only [Bool.and_eq_true, decide_eq_true_eq, beq_iff_eq] at within
      obtain ⟨rest, shape⟩ := List.isPrefixOf_iff_prefix.mp within.1.2
      have boundary := within.2
      rw [← shape, List.getElem?_append_right (Nat.le_refl _), Nat.sub_self] at boundary
      obtain ⟨tail, rfl⟩ := List.head?_eq_some_iff.1 (List.head?_eq_getElem? ▸ boundary)
      exact .inr ⟨tail, shape.symm⟩
    · rintro (equal | ⟨rest, rfl⟩)
      · exact absurd equal same
      · simp [startsWith]

theorem pathKey_normalPath (absolute : Bytes → Option Bytes) (p : NormalPath) :
    pathKey (.posix absolute) p.text = stripTrailing p.text := by
  have normal : lexicallyNormal (Platform.posix absolute).convention p.text = p.text := p.normal
  have generic : genericText (Platform.posix absolute).convention p.text = p.text :=
    p.genericText_text
  rw [pathKey, normal, generic]
  rfl

theorem pathEqualOrWithin_text (child parent : NormalPath) :
    pathEqualOrWithin child.text parent.text = true ↔
      child.text = stripTrailing parent.text ∨
        ∃ rest, child.text = stripTrailing parent.text ++ 47 :: rest := by
  simp only [pathEqualOrWithin, child.normal, parent.normal, NormalPath.genericText_text]
  exact goesOn_iff

theorem pathIsWithin_iff (absolute : Bytes → Option Bytes) (child parent : NormalPath) :
    pathIsWithin (.posix absolute) child.text parent.text = true ↔
      parent.components <+: child.components := by
  obtain ⟨names, slash, childText, childNames, childBelow⟩ := child.exists_rootedText
  obtain ⟨above, mark, parentText, parentNames, parentBelow⟩ := parent.exists_rootedText
  rw [pathIsWithin, pathKey_normalPath, pathKey_normalPath, childNames, parentNames, childText,
    parentText, stripTrailing_rootedText childBelow, stripTrailing_rootedText parentBelow]
  by_cases top : above = []
  · subst top
    refine iff_of_true ?_ (List.nil_prefix)
    have shape : rootedText names false = 47 :: joinNames names := List.append_nil _
    have root : rootedText [] false = [47] := rfl
    rw [shape, root]
    cases joinNames names <;> simp [keyIsWithin, startsWith]
  · rw [keyIsWithin_iff (by simp [rootedText]) (last_rootedText top), rootedText_goesOn_iff top]

theorem pathEqualOrWithin_below (child parent : NormalPath) (below : parent.components ≠ []) :
    pathEqualOrWithin child.text parent.text = true ↔ parent.components <+: child.components := by
  obtain ⟨names, slash, childText, childNames, childBelow⟩ := child.exists_rootedText
  obtain ⟨above, mark, parentText, parentNames, parentBelow⟩ := parent.exists_rootedText
  have top : above ≠ [] := by
    rintro rfl
    exact below parentNames
  rw [pathEqualOrWithin_text, childNames, parentNames, childText, parentText,
    stripTrailing_rootedText parentBelow, rootedText_goesOn_iff top]

/-- The root's text ends in the slash that the test looks for behind it. -/
theorem pathEqualOrWithin_root (child parent : NormalPath) (root : parent.components = []) :
    pathEqualOrWithin child.text parent.text = true ↔ child.components = [] := by
  obtain ⟨names, slash, childText, childNames, childBelow⟩ := child.exists_rootedText
  obtain ⟨above, mark, parentText, parentNames, parentBelow⟩ := parent.exists_rootedText
  have top : above = [] := by
    rw [parentNames] at root
    simpa using root
  subst top
  rw [pathEqualOrWithin_text, childNames, childText, parentText,
    stripTrailing_rootedText parentBelow, List.map_eq_nil_iff]
  constructor
  · intro within
    by_contra below
    obtain ⟨c, tail, text⟩ := List.exists_cons_of_ne_nil (mt (joinNames_eq_nil names).1 below)
    have head := head_joinNames_ne_slash names
    have root : rootedText [] false = [47] := rfl
    rw [text] at head
    rw [root, rootedText, text] at within
    rcases within with same | ⟨rest, longer⟩
    · simp at same
    · simp only [List.cons_append, List.nil_append, List.cons.injEq] at longer
      exact head (congrArg some longer.2.1)
  · rintro rfl
    cases slash with
    | false => exact .inl rfl
    | true => exact absurd rfl (childBelow rfl)

/-- Below the root, the processes stopped are those with one of the product's names whose
executables are at or below the directory of this one. -/
theorem isOwnProcess_iff {selfExecutable name : Bytes} (executable directory : NormalPath)
    (place : parentPath .posix selfExecutable = directory.text)
    (below : directory.components ≠ []) :
    isOwnProcess selfExecutable name executable.text = true ↔
      name ∈ targetNames ∧ directory.components <+: executable.components := by
  have known : executable.text.isEmpty = false := by
    obtain ⟨names, slash, text, -⟩ := executable.exists_rootedText
    rw [text]
    rfl
  rw [isOwnProcess, place, known, Bool.not_false, Bool.and_true, Bool.and_eq_true,
    pathEqualOrWithin_below executable directory below, isTargetName, List.contains_iff_mem]

/-- The index policy's test is containment of places everywhere; process control's is so unless
the outer place is the root and the inner one is not. -/
theorem containment_tests_iff (absolute : Bytes → Option Bytes) (parent child : NormalPath) :
    ((pathIsWithin (.posix absolute) child.text parent.text = true ↔
        parent.components <+: child.components) ∧
      (pathEqualOrWithin child.text parent.text = true ↔
        parent.components <+: child.components)) ↔
      parent.components ≠ [] ∨ child.components = [] := by
  rw [and_iff_right (pathIsWithin_iff absolute child parent)]
  by_cases root : parent.components = []
  · rw [pathEqualOrWithin_root child parent root, root]
    simp
  · exact iff_of_true (pathEqualOrWithin_below child parent root) (.inl root)

/-- `/srv` is inside the root for the index policy and outside it for process control. -/
theorem root_contains_nothing_else :
    ¬ (∀ (absolute : Bytes → Option Bytes) (parent child : NormalPath),
        (pathIsWithin (.posix absolute) child.text parent.text = true ↔
          parent.components <+: child.components) ∧
        (pathEqualOrWithin child.text parent.text = true ↔
          parent.components <+: child.components)) := by
  intro agree
  have both := agree some ⟨lit "/", by decide, by decide, by decide⟩
    ⟨lit "/srv", by decide, by decide, by decide⟩
  have inside : pathEqualOrWithin (lit "/srv") (lit "/") = true := both.2.2 (by decide)
  exact absurd inside (by decide)

end Such.ProcessControl
