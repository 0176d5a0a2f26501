import Such.Runtime.IndexPathPolicy

/-! What the noise prefix of a path is: it ends at a separator or with the path, and it
is there whenever a component has the name. -/
namespace Such.IndexPathPolicy
open ByteText LexicalPath

/-- The path is the directory itself or lies below it. -/
def atOrBelow (c : Convention) (directory path : Bytes) : Bool :=
  path == directory ||
    (startsWith path directory && (path.drop directory.length).head?.any (isSeparator c))

theorem atOrBelow_append {c : Convention} (directory rest : Bytes)
    (boundary : rest = [] ∨ rest.head?.any (isSeparator c) = true) :
    atOrBelow c directory (directory ++ rest) = true := by
  simp only [atOrBelow, startsWith]
  rcases boundary with rfl | separated
  · rw [List.append_nil, beq_self_eq_true, Bool.true_or]
  · rw [List.drop_left, separated, List.isPrefixOf_iff_prefix.mpr (List.prefix_append _ _),
      Bool.and_self, Bool.or_true]

/-- A prefix of the path that ends with a whole component of that name. -/
def EndsInPart (same : Bytes → Bool) (path p : Bytes) : Prop :=
  ∃ front part tail, FieldAt (isSeparator .windows) path front part tail ∧ same part = true ∧
    p = front ++ part

section Scan
variable {same : Bytes → Bool}

theorem EndsInPart.isPrefix {path p : Bytes} (ends : EndsInPart same path p) : p <+: path := by
  obtain ⟨front, part, tail, stands, -, rfl⟩ := ends
  exact ⟨tail, by rw [stands.split, List.append_assoc]⟩

theorem endsInPart_current {done current tail : Bytes}
    (cut : ∀ b ∈ done.getLast?, isSeparator .windows b = true)
    (whole : ∀ b ∈ current, isSeparator .windows b = false) (nameless : same [] = false)
    (named : same current = true) (closes : ∀ b ∈ tail.head?, isSeparator .windows b = true) :
    EndsInPart same (done ++ (current ++ tail)) (done ++ current) := by
  have filled : current ≠ [] := by
    rintro rfl
    exact Bool.false_ne_true (nameless ▸ named)
  exact ⟨done, current, tail, ⟨rfl, ⟨filled, whole⟩, cut, closes⟩, named, rfl⟩

theorem noisePrefixFrom_endsInPart {done current rest p : Bytes}
    (cut : ∀ b ∈ done.getLast?, isSeparator .windows b = true)
    (whole : ∀ b ∈ current, isSeparator .windows b = false) (nameless : same [] = false)
    (found : noisePrefixFrom same done current rest = some p) :
    EndsInPart same (done ++ (current ++ rest)) p := by
  induction rest generalizing done current with
  | nil =>
    simp only [noisePrefixFrom] at found
    split at found
    · rename_i named
      cases found
      exact endsInPart_current cut whole nameless named (by simp)
    · contradiction
  | cons b rest ih =>
    simp only [noisePrefixFrom] at found
    split at found
    · rename_i separator
      split at found
      · rename_i named
        cases found
        exact endsInPart_current cut whole nameless named (by simpa using separator)
      · have ends := ih (by simpa using separator) (List.forall_mem_nil _) found
        simpa using ends
    · rename_i plain
      have goesOn : ∀ c ∈ current ++ [b], isSeparator .windows c = false := by
        simpa [or_imp, forall_and] using ⟨whole, Bool.eq_false_of_not_eq_true plain⟩
      have ends := ih cut goesOn found
      simpa using ends

/-- What is found in front of a separator is found, and else the scan starts anew behind it. -/
theorem noisePrefixFrom_append {b : UInt8} (separator : isSeparator .windows b = true)
    (done current v rest : Bytes) : noisePrefixFrom same done current (v ++ b :: rest) =
      (noisePrefixFrom same done current v).or
        (noisePrefixFrom same (done ++ current ++ v ++ [b]) [] rest) := by
  induction v generalizing done current with
  | nil =>
    simp only [List.nil_append, noisePrefixFrom, if_pos separator, List.append_nil]
    split <;> rfl
  | cons a v ih =>
    simp only [List.cons_append, noisePrefixFrom]
    split
    · split
      · rfl
      · rw [ih]
        simp
    · rw [ih]
      simp

theorem noisePrefixFrom_plain {v : Bytes} (plain : ∀ b ∈ v, isSeparator .windows b = false)
    (done current : Bytes) : noisePrefixFrom same done current v =
      if same (current ++ v) then some (done ++ (current ++ v)) else none := by
  induction v generalizing current with
  | nil => simp [noisePrefixFrom]
  | cons a v ih =>
    rw [List.forall_mem_cons] at plain
    rw [noisePrefixFrom, plain.1, if_neg Bool.false_ne_true, ih plain.2]
    simp

/-- A path that ends with such a component is not passed over. -/
theorem noisePrefixFrom_isSome {front part : Bytes}
    (opens : ∀ b ∈ front.getLast?, isSeparator .windows b = true)
    (plain : ∀ b ∈ part, isSeparator .windows b = false) (named : same part = true) :
    (noisePrefixFrom same [] [] (front ++ part)).isSome = true := by
  rcases List.eq_nil_or_concat' front with rfl | ⟨init, s, rfl⟩
  · rw [List.nil_append, noisePrefixFrom_plain plain, List.nil_append, if_pos named]
    rfl
  · have separator : isSeparator .windows s = true := opens s (by simp)
    rw [List.append_assoc, List.singleton_append, noisePrefixFrom_append separator,
      noisePrefixFrom_plain plain, List.nil_append, if_pos named, Option.isSome_or]
    exact Bool.or_true _

/-- A component of that name is found, unless one before it is. -/
theorem noisePrefixFrom_first {path front part tail : Bytes} (nameless : same [] = false)
    (stands : FieldAt (isSeparator .windows) path front part tail) (named : same part = true) :
    ∃ p, noisePrefixFrom same [] [] path = some p ∧ p <+: front ++ part := by
  obtain ⟨p, found⟩ := Option.isSome_iff_exists.mp
    (noisePrefixFrom_isSome stands.opens stands.isField.2 named)
  have ends := noisePrefixFrom_endsInPart (by simp) (List.forall_mem_nil _) nameless found
  refine ⟨p, ?_, ends.isPrefix⟩
  rw [stands.split, ← List.append_assoc]
  cases tail with
  | nil => rw [List.append_nil, found]
  | cons s rest => rw [noisePrefixFrom_append (stands.closes s rfl), found, Option.some_or]

end Scan

/-- A field between coarse separators is one between finer ones that it does not hold. -/
theorem mem_fields_finer {coarse fine : UInt8 → Bool} (refines : ∀ b, coarse b = true → fine b = true)
    {part path : Bytes} (whole : ∀ b ∈ part, fine b = false) (member : part ∈ fields coarse path) :
    part ∈ fields fine path := by
  obtain ⟨front, tail, stands⟩ := mem_fields_iff.mp member
  refine mem_fields_iff.mpr ⟨front, tail, stands.split, ⟨stands.isField.1, whole⟩, ?_, ?_⟩
  · exact fun b last => refines b (stands.opens b last)
  · exact fun b first => refines b (stands.closes b first)

section NoiseNames
variable {c : Convention} {path noiseName p : Bytes}

theorem noisePrefix_eq (noise : isDefaultNoiseDirectoryName noiseName = true) :
    defaultNoiseDirectoryPrefix c path noiseName =
      noisePrefixFrom (componentEqualPlatform c · noiseName) [] [] path := by
  rw [defaultNoiseDirectoryPrefix, noise]
  rfl

theorem noise_of_prefix (found : defaultNoiseDirectoryPrefix c path noiseName = some p) :
    isDefaultNoiseDirectoryName noiseName = true := by
  rw [defaultNoiseDirectoryPrefix] at found
  split at found
  · contradiction
  · rename_i noise
    simpa using noise

theorem componentEqualPlatform_nil (noise : isDefaultNoiseDirectoryName noiseName = true) :
    componentEqualPlatform c [] noiseName = false := by
  cases noiseName with
  | nil => exact absurd noise (by decide)
  | cons b rest => cases c <;> rfl

theorem noisePrefix_endsInPart (found : defaultNoiseDirectoryPrefix c path noiseName = some p) :
    EndsInPart (componentEqualPlatform c · noiseName) path p := by
  have noise := noise_of_prefix found
  rw [noisePrefix_eq noise] at found
  refine noisePrefixFrom_endsInPart ?_ (List.forall_mem_nil _) ?_ found
  · simp
  · exact componentEqualPlatform_nil noise

theorem noisePrefix_first {q : Bytes} (noise : isDefaultNoiseDirectoryName noiseName = true)
    (ends : EndsInPart (componentEqualPlatform c · noiseName) path q) :
    ∃ p, defaultNoiseDirectoryPrefix c path noiseName = some p ∧ p <+: q := by
  obtain ⟨front, part, tail, stands, named, rfl⟩ := ends
  rw [noisePrefix_eq noise]
  exact noisePrefixFrom_first (componentEqualPlatform_nil noise) stands named

/-- The prefix found is the shortest one that ends with a component of the noise name, and it is
missing exactly when no component has that name. -/
theorem defaultNoiseDirectoryPrefix_shortest (c : Convention) (path : Bytes)
    (noise : isDefaultNoiseDirectoryName noiseName = true) :
    (∀ p, defaultNoiseDirectoryPrefix c path noiseName = some p ↔
      EndsInPart (componentEqualPlatform c · noiseName) path p ∧
        ∀ q, EndsInPart (componentEqualPlatform c · noiseName) path q → p.length ≤ q.length) ∧
    (defaultNoiseDirectoryPrefix c path noiseName = none ↔
      ∀ part ∈ splitWindowsComponents path, componentEqualPlatform c part noiseName = false) := by
  refine ⟨?_, ?_⟩
  · intro p
    constructor
    · intro found
      refine ⟨noisePrefix_endsInPart found, ?_⟩
      intro q ends
      obtain ⟨p', found', inside⟩ := noisePrefix_first noise ends
      obtain rfl : p = p' := Option.some.inj (found.symm.trans found')
      exact inside.length_le
    · rintro ⟨ends, shortest⟩
      obtain ⟨p', found, inside⟩ := noisePrefix_first noise ends
      have same : p' = p := inside.eq_of_length_le (shortest p' (noisePrefix_endsInPart found))
      rw [found, same]
  · constructor
    · intro missing part member
      obtain ⟨front, tail, stands⟩ := mem_fields_iff.mp member
      rw [← Bool.not_eq_true]
      intro named
      obtain ⟨p, found, -⟩ := noisePrefix_first noise ⟨front, part, tail, stands, named, rfl⟩
      rw [missing] at found
      contradiction
    · intro others
      rw [Option.eq_none_iff_forall_ne_some]
      intro p found
      obtain ⟨front, part, tail, stands, named, -⟩ := noisePrefix_endsInPart found
      have other := others part (mem_fields_iff.mpr ⟨front, tail, stands⟩)
      exact Bool.false_ne_true (other.symm.trans named)

/-- The first of two repositories in one another, both below a longer name. -/
theorem nested_repositories_shortest :
    defaultNoiseDirectoryPrefix .windows (lit "/.gits//.GIT\\x/.git/") (lit ".git") =
      some (lit "/.gits//.GIT") ∧
    ∀ q, EndsInPart (componentEqualPlatform .windows · (lit ".git")) (lit "/.gits//.GIT\\x/.git/") q →
      12 ≤ q.length := by
  have found : defaultNoiseDirectoryPrefix .windows (lit "/.gits//.GIT\\x/.git/") (lit ".git") =
      some (lit "/.gits//.GIT") := by decide +kernel
  exact ⟨found, (((defaultNoiseDirectoryPrefix_shortest .windows _ (by decide)).1 _).mp found).2⟩

theorem noise_has_prefix (noise : isDefaultNoiseDirectoryName noiseName = true)
    (plain : ∀ b ∈ noiseName, isSeparator .windows b = false)
    (component : noiseName ∈ fields (isSeparator c) path) :
    ∃ p, defaultNoiseDirectoryPrefix c path noiseName = some p := by
  have refines : ∀ b, isSeparator c b = true → isSeparator .windows b = true := by
    intro b separator
    cases c with
    | posix => exact Bool.or_eq_true _ _ ▸ .inl separator
    | windows => exact separator
  have named : componentEqualPlatform c noiseName noiseName = true := by
    cases c with
    | posix => exact beq_self_eq_true _
    | windows => exact beq_self_eq_true _
  obtain ⟨front, tail, stands⟩ := mem_fields_iff.mp (mem_fields_finer refines plain component)
  obtain ⟨p, found, -⟩ := noisePrefix_first noise ⟨front, noiseName, tail, stands, named, rfl⟩
  exact ⟨p, found⟩

theorem noisePrefix_boundary (found : defaultNoiseDirectoryPrefix c path noiseName = some p) :
    ∃ tail, path = p ++ tail ∧ (tail = [] ∨ tail.head?.any (isSeparator .windows) = true) := by
  obtain ⟨front, part, tail, stands, -, rfl⟩ := noisePrefix_endsInPart found
  refine ⟨tail, by rw [stands.split, List.append_assoc], ?_⟩
  cases tail with
  | nil => exact .inl rfl
  | cons b rest => exact .inr (stands.closes b rfl)

/-- The last component of a path, split at both slashes. -/
def lastPart (path : Bytes) : Bytes := path.rtakeWhile fun b => !isSeparator .windows b

/-- Prefixes of different noise names are different. -/
theorem noisePrefix_lastPart (found : defaultNoiseDirectoryPrefix c path noiseName = some p) :
    lower (lastPart p) = lower noiseName := by
  obtain ⟨front, part, tail, stands, named, rfl⟩ := noisePrefix_endsInPart found
  have last : lastPart (front ++ part) = part := by
    refine rtakeWhile_eq_iff.mpr ⟨front, rfl, ?_, ?_⟩
    · simpa using stands.opens
    · simpa using stands.isField.2
  rw [last]
  cases c with
  | posix => rw [beq_iff_eq.mp named]
  | windows => exact beq_iff_eq.mp named

/-- Under Windows rules the prefix is a directory of the path, or the path itself. -/
theorem noisePrefix_atOrBelow_windows {path noiseName p : Bytes}
    (found : defaultNoiseDirectoryPrefix .windows path noiseName = some p) :
    atOrBelow .windows p path = true := by
  obtain ⟨tail, rfl, boundary⟩ := noisePrefix_boundary found
  exact atOrBelow_append p tail boundary

/-- Elsewhere it is one unless a backslash of a file name was taken for a separator. -/
theorem noisePrefix_atOrBelow_posix {path noiseName p : Bytes} (plain : 92 ∉ path)
    (found : defaultNoiseDirectoryPrefix .posix path noiseName = some p) :
    atOrBelow .posix p path = true := by
  obtain ⟨tail, rfl, boundary⟩ := noisePrefix_boundary found
  apply atOrBelow_append
  cases tail with
  | nil => exact .inl rfl
  | cons b rest =>
    rcases boundary with empty | separated
    · cases empty
    · refine .inr ?_
      have other : b ≠ 92 := by
        rintro rfl
        exact plain (List.mem_append_right _ List.mem_cons_self)
      simpa [isSeparator, other] using separated

end NoiseNames

end Such.IndexPathPolicy
