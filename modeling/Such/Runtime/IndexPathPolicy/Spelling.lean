import Mathlib.Logic.Relation
import Such.Runtime.IndexPathPolicy

/-! Spellings of one Windows path: the protected places are told by names alone, so the answer is
the same for every spelling, and for everything below a protected place it is yes. -/
namespace Such.IndexPathPolicy
open ByteText LexicalPath

/-- One change of spelling: a letter's case, the kind of a separator, or one more separator
beside another or at either end. -/
inductive Respelling : Bytes → Bytes → Prop where
  | letter (front back : Bytes) (a b : UInt8) (case : toLower a = toLower b) :
      Respelling (front ++ a :: back) (front ++ b :: back)
  | separator (front back : Bytes) (a b : UInt8) (first : isSeparator .windows a = true)
      (second : isSeparator .windows b = true) :
      Respelling (front ++ a :: back) (front ++ b :: back)
  | leading (path : Bytes) (s : UInt8) (mark : isSeparator .windows s = true) :
      Respelling path (s :: path)
  | repeated (front back : Bytes) (s t : UInt8) (first : isSeparator .windows s = true)
      (second : isSeparator .windows t = true) :
      Respelling (front ++ s :: back) (front ++ s :: t :: back)
  | trailing (path : Bytes) (s : UInt8) (mark : isSeparator .windows s = true) :
      Respelling path (path ++ [s])

/-- Two paths that changes of spelling lead from one to the other. -/
def SameSpelled : Bytes → Bytes → Prop := Relation.EqvGen Respelling

/-- The folded names of a path. -/
def foldedParts (path : Bytes) : List Bytes := (splitWindowsComponents path).map lower

theorem fieldsFrom_lower {sep : UInt8 → Bool} (folds : ∀ b, sep (toLower b) = sep b)
    (current v : Bytes) :
    fieldsFrom sep (lower current) (lower v) = (fieldsFrom sep current v).map lower := by
  induction v generalizing current with
  | nil =>
    cases current with
    | nil => rfl
    | cons b current => rfl
  | cons b v ih =>
    have cut := ih []
    have goOn := ih (current ++ [b])
    have empty : (lower current).isEmpty = current.isEmpty := by cases current <;> rfl
    rw [lower_append] at goOn
    simp only [lower, List.map_cons, fieldsFrom, folds] at cut goOn empty ⊢
    split_ifs <;> simp_all [lower]

theorem isSeparator_toLower (b : UInt8) :
    isSeparator .windows (toLower b) = isSeparator .windows b := by
  have slash : toLower b = 47 ↔ b = 47 := toLower_eq_iff (by decide)
  have backslash : toLower b = 92 ↔ b = 92 := toLower_eq_iff (by decide)
  rw [Bool.eq_iff_iff]
  simp [isSeparator, slash, backslash]

theorem splitWindowsComponents_lower (path : Bytes) :
    splitWindowsComponents (lower path) = (splitWindowsComponents path).map lower :=
  fieldsFrom_lower isSeparator_toLower [] path

theorem splitWindowsComponents_append {s : UInt8} (mark : isSeparator .windows s = true)
    (front back : Bytes) : splitWindowsComponents (front ++ s :: back) =
      splitWindowsComponents front ++ splitWindowsComponents back :=
  fields_append_sep front back mark

theorem splitWindowsComponents_cons {s : UInt8} (mark : isSeparator .windows s = true)
    (path : Bytes) : splitWindowsComponents (s :: path) = splitWindowsComponents path :=
  splitWindowsComponents_append mark [] path

/-- No change of spelling changes a name but for the case of its letters. -/
theorem Respelling.foldedParts {path other : Bytes} (step : Respelling path other) :
    foldedParts path = foldedParts other := by
  simp only [IndexPathPolicy.foldedParts]
  cases step with
  | letter front back a b case =>
    have folded : lower (front ++ a :: back) = lower (front ++ b :: back) := by
      simp [lower, case]
    rw [← splitWindowsComponents_lower, folded, splitWindowsComponents_lower]
  | separator front back a b first second =>
    rw [splitWindowsComponents_append first, splitWindowsComponents_append second]
  | leading path s mark => rw [splitWindowsComponents_cons mark]
  | repeated front back s t first second =>
    rw [splitWindowsComponents_append first, splitWindowsComponents_append first,
      splitWindowsComponents_cons second]
  | trailing path s mark =>
    have none : splitWindowsComponents [] = [] := rfl
    rw [splitWindowsComponents_append mark, none, List.append_nil]

theorem SameSpelled.foldedParts {path other : Bytes} (same : SameSpelled path other) :
    foldedParts path = foldedParts other := by
  induction same with
  | rel path other step => exact step.foldedParts
  | refl path => rfl
  | symm path other _ ih => exact ih.symm
  | trans path middle other _ _ first second => exact first.trans second

def protectedDrive : List Bytes → Bool
  | drive :: first :: _ =>
    componentEqualAscii drive (lit "C:") && protectedNames.any (componentEqualAscii first)
  | _ => false

def protectedParts (parts : List Bytes) : Bool :=
  parts.any isDefaultNoiseDirectoryName || parts.any (componentEqualAscii · (lit "AppData")) ||
    protectedDrive parts

theorem isWindowsProtectedIndexPath_eq (path : Bytes) :
    isWindowsProtectedIndexPath path = protectedParts (splitWindowsComponents path) := rfl

@[simp] theorem componentEqualAscii_lower (a b : Bytes) :
    componentEqualAscii (lower a) b = componentEqualAscii a b := by
  simp [componentEqualAscii]

@[simp] theorem isDefaultNoiseDirectoryName_lower (a : Bytes) :
    isDefaultNoiseDirectoryName (lower a) = isDefaultNoiseDirectoryName a := by
  simp [isDefaultNoiseDirectoryName]

/-- Every comparison ignores case. -/
theorem protectedParts_lower (parts : List Bytes) :
    protectedParts (parts.map lower) = protectedParts parts := by
  have drive : protectedDrive (parts.map lower) = protectedDrive parts := by
    rcases parts with _ | ⟨drive, _ | ⟨first, rest⟩⟩
    · rfl
    · rfl
    · have names : (fun name => componentEqualAscii (lower first) name) = componentEqualAscii first :=
        funext fun name => componentEqualAscii_lower first name
      simp [protectedDrive, names]
  simp [protectedParts, drive, List.any_map, Function.comp_def]

/-- The classification knows a path by its folded names. -/
theorem isWindowsProtectedIndexPath_congr {path other : Bytes}
    (same : foldedParts path = foldedParts other) :
    isWindowsProtectedIndexPath path = isWindowsProtectedIndexPath other := by
  rw [isWindowsProtectedIndexPath_eq, isWindowsProtectedIndexPath_eq, ← protectedParts_lower,
    ← protectedParts_lower (splitWindowsComponents other)]
  exact congrArg protectedParts same

theorem protectedParts_append (parts more : List Bytes) (found : protectedParts parts = true) :
    protectedParts (parts ++ more) = true := by
  simp only [protectedParts, Bool.or_eq_true, List.any_append] at found ⊢
  rcases found with (noise | appData) | drive
  · exact .inl (.inl (.inl noise))
  · exact .inl (.inr (.inl appData))
  · refine .inr ?_
    rcases parts with _ | ⟨name, _ | ⟨first, rest⟩⟩
    · cases drive
    · cases drive
    · exact drive

/-- A protected place is protected in every spelling, and so is everything below it. -/
theorem isWindowsProtectedIndexPath_stable :
    (∀ path other, SameSpelled path other →
      isWindowsProtectedIndexPath other = isWindowsProtectedIndexPath path) ∧
    (∀ (path below : Bytes) (s : UInt8), isSeparator .windows s = true →
      isWindowsProtectedIndexPath path = true →
      isWindowsProtectedIndexPath (path ++ s :: below) = true) := by
  constructor
  · intro path other same
    exact isWindowsProtectedIndexPath_congr same.foldedParts.symm
  · intro path below s mark found
    rw [isWindowsProtectedIndexPath_eq] at found
    rw [isWindowsProtectedIndexPath_eq, splitWindowsComponents_append mark]
    exact protectedParts_append _ _ found

end Such.IndexPathPolicy
