import Such.Runtime.SearchableFiles.SuffixTable

/-! The lookup without a search: a file is presented for its base name alone, because that is
a special name or because the text behind its last dot is in the table. -/
namespace Such.SearchableFiles
open ByteText

/-- Behind the last slash or backslash. -/
def IsBaseName (filename b : Bytes) : Prop :=
  ∃ front, filename = front ++ b ∧ (∀ c ∈ front.getLast?, c = 47 ∨ c = 92) ∧ ∀ c ∈ b, c ≠ 47 ∧ c ≠ 92

/-- Behind the last dot. -/
def BehindLastDot (b suffix : Bytes) : Prop := ∃ stem, b = stem ++ 46 :: suffix ∧ 46 ∉ suffix

/-- What the plain lookup presents. -/
def Listed (b : Bytes) : Prop :=
  (∃ name ∈ kExtensionlessNames, equalsAsciiCi b name = true) ∨
    (46 ∈ b.dropLast ∧ ∃ suffix, BehindLastDot b suffix ∧
      ∃ entry ∈ kAllowedExtensions, equalsAsciiCi suffix entry = true)

theorem baseName_eq_iff {filename b : Bytes} : baseName filename = b ↔ IsBaseName filename b := by
  rw [baseName, rtakeWhile_eq_iff]
  simp only [IsBaseName, Bool.and_eq_true, Bool.and_eq_false_iff, bne_iff_ne, bne_eq_false_iff_eq]

/-- A name without separators is its own last component. -/
theorem baseName_eq_self {filename : Bytes} (slash : 47 ∉ filename) (backslash : 92 ∉ filename) :
    baseName filename = filename := by
  refine baseName_eq_iff.mpr ⟨[], rfl, by simp, ?_⟩
  intro c member
  exact ⟨ne_of_mem_of_not_mem member slash, ne_of_mem_of_not_mem member backslash⟩

theorem nameSuffix_append {suffix : Bytes} (clear : 46 ∉ suffix) (stem : Bytes) :
    nameSuffix (stem ++ 46 :: suffix) = some suffix := by
  have dotted : (stem ++ 46 :: suffix).contains 46 = true := by simp
  have behind : (stem ++ 46 :: suffix).rtakeWhile (· != 46) = suffix := by
    refine rtakeWhile_eq_iff.mpr ⟨stem ++ [46], by simp, by simp, ?_⟩
    intro c member
    exact bne_iff_ne.mpr (ne_of_mem_of_not_mem member clear)
  rw [nameSuffix, dotted, behind]
  rfl

theorem nameSuffix_eq_some_iff {b suffix : Bytes} : nameSuffix b = some suffix ↔ BehindLastDot b suffix := by
  constructor
  · intro judged
    simp only [nameSuffix, Bool.not_eq_true', ← Bool.not_eq_true, List.contains_iff_mem] at judged
    split at judged
    · cases judged
    · rename_i dotted
      obtain ⟨front, whole, stops, kept⟩ := rtakeWhile_eq_iff.mp (Option.some.inj judged)
      have clear : (46 : UInt8) ∉ suffix := fun member => bne_iff_ne.mp (kept _ member) rfl
      rcases List.eq_nil_or_concat' front with rfl | ⟨stem, c, rfl⟩
      · rw [List.nil_append] at whole
        exact absurd (whole ▸ not_not.mp dotted) clear
      · obtain rfl : c = 46 := by simpa using stops c (by simp)
        exact ⟨stem, by simpa using whole, clear⟩
  · rintro ⟨stem, rfl, clear⟩
    exact nameSuffix_append clear stem

theorem exists_allowed_iff {suffix : Bytes} :
    (∃ entry ∈ kAllowedExtensions, equalsAsciiCi suffix entry = true) ↔ allowedSuffix suffix = true := by
  rw [allowedSuffix_iff]
  simp only [equalsAsciiCi, beq_iff_eq]
  constructor
  · rintro ⟨entry, member, same⟩
    rwa [same, kAllowedExtensions_lower entry member]
  · intro member
    exact ⟨lower suffix, member, (lower_lower suffix).symm⟩

theorem allowedSuffix_eq (extension : Bytes) : allowedSuffix extension =
    kAllowedExtensions[lowerBound kAllowedExtensions extension kAllowedExtensions.length 0
      kAllowedExtensions.length]?.any (equalsAsciiCi extension) := by
  unfold allowedSuffix
  generalize lowerBound kAllowedExtensions extension _ 0 _ = low
  cases kAllowedExtensions[low]? <;> rfl

theorem allowedSuffix_nil : allowedSuffix [] = false := by
  rw [← Bool.not_eq_true, allowedSuffix_iff]
  decide +kernel

/-- The two refusals of an empty text are those of the tables, which have no empty entry. -/
theorem searchableFilename_eq (filename extension : Bytes) : searchableFilename filename extension =
    (kExtensionlessNames.any (equalsAsciiCi (baseName filename)) ||
      (nameSuffix (baseName filename)).any allowedSuffix) := by
  unfold searchableFilename
  dsimp only
  generalize baseName filename = b
  cases b with
  | nil => decide +kernel
  | cons c rest =>
    rw [List.isEmpty_cons, if_neg Bool.false_ne_true]
    cases kExtensionlessNames.any (equalsAsciiCi (c :: rest)) with
    | true => rfl
    | false =>
      rcases nameSuffix (c :: rest) with - | suffix
      · rfl
      · rw [if_neg Bool.false_ne_true, Bool.false_or, Option.any_some]
        cases suffix with
        | nil => exact allowedSuffix_nil.symm
        | cons d suffix =>
          refine Eq.trans ?_ (allowedSuffix_eq (d :: suffix)).symm
          dsimp only
          generalize lowerBound kAllowedExtensions (d :: suffix) _ 0 _ = low
          cases kAllowedExtensions[low]? <;> rfl

theorem listed_iff (b : Bytes) : Listed b ↔
    (kExtensionlessNames.any (equalsAsciiCi b) || (nameSuffix b).any allowedSuffix) = true := by
  rw [Bool.or_eq_true, List.any_eq_true, Option.any_eq_true]
  refine or_congr_right ⟨?_, ?_⟩
  · rintro ⟨-, suffix, behind, listed⟩
    exact ⟨suffix, nameSuffix_eq_some_iff.mpr behind, exists_allowed_iff.mp listed⟩
  · rintro ⟨suffix, judged, allowed⟩
    have behind := nameSuffix_eq_some_iff.mp judged
    refine ⟨?_, suffix, behind, exists_allowed_iff.mpr allowed⟩
    obtain ⟨stem, rfl, -⟩ := behind
    cases suffix with
    | nil => exact absurd (allowedSuffix_nil ▸ allowed) Bool.false_ne_true
    | cons d suffix => simp

/-- Only the base name counts: what the runtime reports as extension is not looked at. -/
theorem searchableFilename_plain (filename : Bytes) :
    ∃ b, (∀ v, IsBaseName filename v ↔ v = b) ∧
      ∀ extension, searchableFilename filename extension = true ↔ Listed b := by
  refine ⟨baseName filename, ?_, ?_⟩
  · intro v
    rw [← baseName_eq_iff, eq_comm]
  · intro extension
    rw [searchableFilename_eq, listed_iff]

end Such.SearchableFiles
