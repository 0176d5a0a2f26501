import Such.Base.ArgvText
import Such.Runtime.IndexWorkerLauncher.Arguments

/-! The worker's Windows command line: every argument quoted on its own and read back by the
start-up rules of the child. Characters are the 16-bit units of a wide string. -/
namespace Such.IndexWorkerLauncher
open ArgvText ByteText

abbrev WideText := List UInt16

/-- What forces an argument into quotation marks. -/
def needsMarks (c : UInt16) : Bool := c == 32 || c == 9 || c == 10 || c == 11 || c == 34

/-- The quoted form of what is left of an argument behind `slashes` unwritten backslashes. -/
def quoteFrom (slashes : Nat) : WideText → WideText
  | [] => List.replicate (slashes * 2) 92 ++ [34]
  | c :: rest =>
    if c = 92 then quoteFrom (slashes + 1) rest
    else if c = 34 then List.replicate (slashes * 2 + 1) 92 ++ 34 :: quoteFrom 0 rest
    else List.replicate slashes 92 ++ c :: quoteFrom 0 rest

def quoteWindowsArgument (value : WideText) : WideText :=
  if value.isEmpty then [34, 34]
  else if !value.any needsMarks then value
  else 34 :: quoteFrom 0 value

/-- Blanks are the space and the tab; a line break separates nothing. -/
def windowsRules (pairs : Bool) : ArgvRules UInt16 where
  slash := 92
  mark := 34
  blank c := c == 32 || c == 9
  pairs := pairs
  slash_ne_mark := by decide
  solid_slash := by decide
  solid_mark := by decide

/-- The rules documented for `CommandLineToArgvW`. -/
def commandLineToArgv : ArgvRules UInt16 := windowsRules false

/-- The rules documented for the C run-time, where a pair of marks inside marks is literal. -/
def msvcCrt : ArgvRules UInt16 := windowsRules true

/-- The arguments behind the program name; the line ends at its first NUL. -/
def parseArguments (rules : ArgvRules UInt16) (line : WideText) : List WideText :=
  argvFrom rules {} (line.takeWhile (· != 0))

section Quoting

variable {pairs : Bool} {value rest : WideText}

theorem read_slashes (n : Nat) (current tail : WideText) :
    argvFrom (windowsRules pairs) (reading true 0 current) (List.replicate n 92 ++ tail) =
      argvFrom (windowsRules pairs) (reading true n current) tail := by
  have read : argvFrom (windowsRules pairs) (reading true 0 current) (List.replicate n 92 ++ tail) =
      argvFrom (windowsRules pairs) (reading true (0 + n) current) tail := argvFrom_slashes n
  rw [read, Nat.zero_add]

/-- Reading what the quoter writes: the backslashes it has counted and not written yet are
exactly those the reader still has to see. -/
theorem argvFrom_quoteFrom (single : rest.head? ≠ some 34) (slashes : Nat) (current : WideText) :
    argvFrom (windowsRules pairs) (reading true 0 current) (quoteFrom slashes value ++ rest) =
      argvFrom (windowsRules pairs)
        (reading false 0 (current ++ List.replicate slashes 92 ++ value)) rest := by
  induction value generalizing slashes current with
  | nil =>
    have close : argvFrom (windowsRules pairs) (reading true (2 * slashes) current) (34 :: rest) =
        argvFrom (windowsRules pairs) (reading false 0 (current ++ List.replicate slashes 92)) rest :=
      argvFrom_close slashes single
    rw [quoteFrom, List.append_assoc, read_slashes, Nat.mul_comm slashes 2, List.append_nil]
    exact close
  | cons c value ih =>
    by_cases slash : c = 92
    · have more : current ++ List.replicate (slashes + 1) 92 ++ value =
          current ++ List.replicate slashes 92 ++ c :: value := by
        simp [slash, List.replicate_succ']
      rw [quoteFrom, if_pos slash, ih, more]
    · by_cases mark : c = 34
      · have literal : ∀ tail : WideText,
            argvFrom (windowsRules pairs) (reading true (2 * slashes + 1) current) (34 :: tail) =
              argvFrom (windowsRules pairs)
                (reading true 0 (current ++ List.replicate slashes 92 ++ [34])) tail :=
          fun tail => argvFrom_literal slashes
        rw [quoteFrom, if_neg slash, if_pos mark, List.append_assoc, List.cons_append, read_slashes,
          Nat.mul_comm slashes 2, literal, ih]
        simp [mark]
      · have plain : ∀ tail : WideText,
            argvFrom (windowsRules pairs) (reading true slashes current) (c :: tail) =
              argvFrom (windowsRules pairs)
                (reading true 0 (current ++ List.replicate slashes 92 ++ [c])) tail :=
          fun tail => argvFrom_plain slash mark (.inr rfl)
        rw [quoteFrom, if_neg slash, if_neg mark, List.append_assoc, List.cons_append, read_slashes,
          plain, ih]
        simp

/-- Bare characters separate nothing and are no marks, so they read as themselves. -/
theorem argvFrom_bare (bare : ∀ c ∈ value, needsMarks c = false) (slashes : Nat)
    (current : WideText)
    (stops : ∀ c ∈ rest.head?, (windowsRules pairs).blank c = true) :
    argvFrom (windowsRules pairs) (reading false slashes current) (value ++ rest) =
      (current ++ List.replicate slashes 92 ++ value) :: argvFrom (windowsRules pairs) {} rest := by
  induction value generalizing slashes current with
  | nil =>
    rw [List.nil_append, List.append_nil]
    exact argvFrom_end stops
  | cons c value ih =>
    have ih := ih fun d member => bare d (by simp [member])
    by_cases slash : c = 92
    · have counted : argvFrom (windowsRules pairs) (reading false slashes current) (92 :: (value ++ rest)) =
          argvFrom (windowsRules pairs) (reading false (slashes + 1) current) (value ++ rest) :=
        argvFrom_slash
      rw [slash, List.cons_append, counted, ih]
      simp [List.replicate_succ']
    · have own : needsMarks c = false := bare c (by simp)
      have mark : c ≠ 34 := by
        rintro rfl
        exact absurd own (by decide)
      have solid : (windowsRules pairs).blank c = false := by
        simp only [needsMarks, Bool.or_eq_false_iff] at own
        simp only [windowsRules, Bool.or_eq_false_iff]
        exact own.1.1.1
      have plain : argvFrom (windowsRules pairs) (reading false slashes current) (c :: (value ++ rest)) =
          argvFrom (windowsRules pairs)
            (reading false 0 (current ++ List.replicate slashes 92 ++ [c])) (value ++ rest) :=
        argvFrom_plain slash mark (.inl solid)
      rw [List.cons_append, plain, ih]
      simp

/-- A quoted argument is read as the argument it stands for. -/
theorem quoteWindowsArgument_reads (pairs : Bool) (value : WideText) :
    ReadsAs (windowsRules pairs) (quoteWindowsArgument value) value := by
  intro rest stops
  have single : rest.head? ≠ some 34 := fun head =>
    absurd (stops 34 (by simp [head])) (by simp [windowsRules])
  have marks : ∀ value : WideText,
      argvFrom (windowsRules pairs) {} (34 :: quoteFrom 0 value ++ rest) =
        value :: argvFrom (windowsRules pairs) {} rest := by
    intro value
    have opened : argvFrom (windowsRules pairs) {} (34 :: (quoteFrom 0 value ++ rest)) =
        argvFrom (windowsRules pairs) (reading true 0 []) (quoteFrom 0 value ++ rest) := argvFrom_open
    rw [List.cons_append, opened, argvFrom_quoteFrom single, argvFrom_end stops]
    simp
  simp only [quoteWindowsArgument]
  split
  · rename_i empty
    rw [List.isEmpty_iff.mp empty]
    exact marks []
  · rename_i filled
    split
    · rename_i plain
      have bare : ∀ c ∈ value, needsMarks c = false := by simpa using plain
      obtain ⟨c, tail, rfl⟩ := List.exists_cons_of_ne_nil (by simpa using filled : value ≠ [])
      have solid : (windowsRules pairs).blank c = false := by
        have own := bare c (by simp)
        simp only [needsMarks, Bool.or_eq_false_iff] at own
        simp only [windowsRules, Bool.or_eq_false_iff]
        exact own.1.1.1
      rw [List.cons_append, argvFrom_start solid, ← List.cons_append, argvFrom_bare bare 0 [] stops]
      simp
    · exact marks value

theorem notMem_quoteFrom (slashes : Nat) (free : 0 ∉ value) : 0 ∉ quoteFrom slashes value := by
  induction value generalizing slashes with
  | nil => simp [quoteFrom]
  | cons c value ih =>
    obtain ⟨own, later⟩ : ¬0 = c ∧ 0 ∉ value := by simpa using free
    simp only [quoteFrom]
    split_ifs with slash mark
    · exact ih (slashes + 1) later
    · simp [ih 0 later]
    · simp [ih 0 later, own]

theorem notMem_quoteWindowsArgument (free : 0 ∉ value) : 0 ∉ quoteWindowsArgument value := by
  simp only [quoteWindowsArgument]
  split_ifs
  · decide
  · exact free
  · simp [notMem_quoteFrom 0 free]

end Quoting

/-- The quoted arguments with a space between neighbours. -/
def quotedLine (arguments : List WideText) : WideText :=
  List.intercalate [32] (arguments.map quoteWindowsArgument)

theorem quotedLine_cons_cons (argument next : WideText) (arguments : List WideText) :
    quotedLine (argument :: next :: arguments) =
      quoteWindowsArgument argument ++ 32 :: quotedLine (next :: arguments) := by
  simp [quotedLine, List.intercalate_cons_cons]

theorem notMem_quotedLine {arguments : List WideText} (free : ∀ argument ∈ arguments, 0 ∉ argument) :
    0 ∉ quotedLine arguments := by
  induction arguments with
  | nil => simp [quotedLine]
  | cons argument arguments ih =>
    have own := notMem_quoteWindowsArgument (free argument (by simp))
    have later := ih fun a member => free a (by simp [member])
    cases arguments with
    | nil => simpa [quotedLine] using own
    | cons next arguments =>
      rw [quotedLine_cons_cons]
      simp only [List.mem_append, List.mem_cons, not_or]
      exact ⟨own, by decide, later⟩

theorem parse_quotedLine (pairs : Bool) {arguments : List WideText}
    (free : ∀ argument ∈ arguments, 0 ∉ argument) :
    parseArguments (windowsRules pairs) (quotedLine arguments) = arguments := by
  have whole : (quotedLine arguments).takeWhile (· != 0) = quotedLine arguments := by
    apply List.takeWhile_eq_self_iff.mpr
    intro c member
    simpa using fun same : c = 0 => notMem_quotedLine free (same ▸ member)
  rw [parseArguments, whole]
  exact argvFrom_intercalate rfl fun argument _ => quoteWindowsArgument_reads pairs argument

/-- By either set of rules, the quoted arguments joined by spaces are read back as they were:
empty ones, blanks, marks and runs of backslashes included, in any number and order. -/
theorem parseArguments_quotedLine {arguments : List WideText}
    (free : ∀ argument ∈ arguments, 0 ∉ argument) :
    parseArguments commandLineToArgv (quotedLine arguments) = arguments ∧
      parseArguments msvcCrt (quotedLine arguments) = arguments :=
  ⟨parse_quotedLine false free, parse_quotedLine true free⟩

theorem parseArguments_folder :
    parseArguments commandLineToArgv (quotedLine [[67, 58, 92, 65, 32, 66, 92], [], [34, 92]]) =
        [[67, 58, 92, 65, 32, 66, 92], [], [34, 92]] ∧
      parseArguments msvcCrt (quotedLine [[67, 58, 92, 65, 32, 66, 92], [], [34, 92]]) =
        [[67, 58, 92, 65, 32, 66, 92], [], [34, 92]] :=
  parseArguments_quotedLine (by decide +kernel)

def widenAscii (value : Bytes) : WideText := value.map UInt8.toUInt16

/-- The line handed to the new process: the program, then a space and each argument. -/
def commandLine (program : WideText) (arguments : List Bytes) : WideText :=
  quoteWindowsArgument program ++
    arguments.flatMap fun argument => 32 :: quoteWindowsArgument (widenAscii argument)

/-- The program name has rules of its own: a marked one ends at the next mark, a bare one at the
first blank, and backslashes mean nothing in either. -/
def afterProgram : WideText → WideText
  | [] => []
  | c :: rest =>
    if c = 34 then (rest.dropWhile (· != 34)).drop 1
    else (c :: rest).dropWhile fun c => !(c == 32 || c == 9)

theorem commandLine_eq (program : WideText) (arguments : List Bytes) :
    commandLine program arguments = quotedLine (program :: arguments.map widenAscii) := by
  induction arguments generalizing program with
  | nil => simp [commandLine, quotedLine]
  | cons argument arguments ih =>
    have step : commandLine program (argument :: arguments) =
        quoteWindowsArgument program ++ 32 :: commandLine (widenAscii argument) arguments := by
      simp [commandLine]
    rw [step, ih, List.map_cons, quotedLine_cons_cons]

section Launch

variable {program rest : WideText} (unmarked : 34 ∉ program)
include unmarked

theorem quoteFrom_unmarked (slashes : Nat) :
    ∃ body, quoteFrom slashes program = body ++ [34] ∧ 34 ∉ body := by
  induction program generalizing slashes with
  | nil => exact ⟨_, rfl, by simp [List.mem_replicate]⟩
  | cons c program ih =>
    obtain ⟨own, later⟩ : ¬34 = c ∧ 34 ∉ program := by simpa using unmarked
    by_cases slash : c = 92
    · rw [quoteFrom, if_pos slash]
      exact ih later (slashes + 1)
    · obtain ⟨body, read, free⟩ := ih later 0
      refine ⟨List.replicate slashes 92 ++ c :: body, ?_, by simp [free, own]⟩
      rw [quoteFrom, if_neg slash, if_neg (Ne.symm own), read]
      simp

/-- The program's own rules stop exactly behind its quoted name. -/
theorem afterProgram_quoted (stops : ∀ c ∈ rest.head?, c = 32) :
    afterProgram (quoteWindowsArgument program ++ rest) = rest := by
  have closes : ∀ body : WideText, 34 ∉ body → afterProgram (34 :: (body ++ [34]) ++ rest) = rest := by
    intro body free
    have inside : ∀ c ∈ body, (c != 34) = true := by
      intro c member
      simpa using fun same : c = 34 => free (same ▸ member)
    rw [List.cons_append, afterProgram, if_pos rfl, List.append_assoc,
      List.dropWhile_append_of_pos inside]
    simp
  simp only [quoteWindowsArgument]
  split
  · exact closes [] (by simp)
  · rename_i filled
    split
    · rename_i plain
      have bare : ∀ c ∈ program, needsMarks c = false := by simpa using plain
      have solid : ∀ c ∈ program, (!(c == 32 || c == 9)) = true := by
        intro c member
        have own := bare c member
        simp only [needsMarks, Bool.or_eq_false_iff] at own
        simp [own.1.1.1]
      obtain ⟨c, tail, rfl⟩ := List.exists_cons_of_ne_nil (by simpa using filled : program ≠ [])
      have open_ : c ≠ 34 := by
        rintro rfl
        exact unmarked (by simp)
      rw [List.cons_append, afterProgram, if_neg open_, ← List.cons_append,
        List.dropWhile_append_of_pos solid]
      cases rest with
      | nil => rfl
      | cons blank rest => simp [stops blank rfl]
    · obtain ⟨body, read, free⟩ := quoteFrom_unmarked unmarked 0
      rw [read]
      exact closes body free

end Launch

/-- The started worker sees the arguments the launcher meant, whatever folder it runs from: the
program's name holds no mark, as no Windows path does. -/
theorem launched_arguments {program : WideText} (unmarked : 34 ∉ program) {arguments : List Bytes}
    (clear : ∀ argument ∈ arguments.map widenAscii, 0 ∉ argument) :
    parseArguments commandLineToArgv (afterProgram (commandLine program arguments)) =
        arguments.map widenAscii ∧
      parseArguments msvcCrt (afterProgram (commandLine program arguments)) =
        arguments.map widenAscii := by
  rw [commandLine_eq]
  generalize arguments.map widenAscii = arguments at clear ⊢
  cases arguments with
  | nil =>
    have behind : afterProgram (quoteWindowsArgument program ++ []) = [] :=
      afterProgram_quoted unmarked (by simp)
    rw [List.append_nil] at behind
    rw [quotedLine, List.map_singleton, List.intercalate_singleton, behind]
    exact ⟨rfl, rfl⟩
  | cons first arguments =>
    have skip : ∀ pairs, parseArguments (windowsRules pairs) (32 :: quotedLine (first :: arguments)) =
        parseArguments (windowsRules pairs) (quotedLine (first :: arguments)) :=
      fun pairs => argvFrom_skip rfl
    rw [quotedLine_cons_cons, afterProgram_quoted unmarked (by simp), commandLineToArgv, msvcCrt,
      skip, skip]
    exact ⟨parse_quotedLine false clear, parse_quotedLine true clear⟩

end Such.IndexWorkerLauncher
