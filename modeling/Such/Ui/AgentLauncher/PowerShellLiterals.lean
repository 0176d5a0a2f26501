import Such.Base.DoubledMarks
import Such.Ui.AgentLauncher

/-! The paths in the PowerShell script, read as PowerShell reads single-quoted strings. The
script's own text has no other quotation, escape or comment character, so that outside its
literals every character stands for itself. -/
namespace Such.AgentLauncher
open DoubledMarks QueryCommands

/-- The apostrophe and the four typographic single quotation marks. -/
def isSingleQuote (c : UInt16) : Bool :=
  c == 0x27 || c == 0x2018 || c == 0x2019 || c == 0x201A || c == 0x201B

/-- Which mark a mixed pair stands for is left open. -/
def powershell (pair : PairReading UInt16) : LiteralRules UInt16 :=
  { pair with isMark := isSingleQuote }

/-- The only single quotation marks of a path are apostrophes. -/
def OnlyApostrophes (path : WideText) : Prop :=
  ∀ c ∈ path, c ≠ 0x2018 ∧ c ≠ 0x2019 ∧ c ≠ 0x201A ∧ c ≠ 0x201B

instance (path : WideText) : Decidable (OnlyApostrophes path) :=
  List.decidableBAll _ path

/-- The text behind the three paths. -/
def scriptTail (kind : AgentKind) : WideText :=
  wide "; " ++ powershellBootstrap ++ powershellAgent kind

/-- The script's tokens where each path is one literal. -/
def scriptTokens (pair : PairReading UInt16) (kind : AgentKind) (cwd mcp runtime : WideText) :
    List (Token UInt16) :=
  (wide "Set-Location -LiteralPath ").map .plain ++ .literal cwd ::
    ((wide "; $mcp=").map .plain ++ .literal mcp ::
      ((wide "; $runtime=").map .plain ++ .literal runtime ::
        tokens (powershell pair) (scriptTail kind)))

variable {pair : PairReading UInt16} {path rest : WideText}

theorem psQuote_eq : psQuote path = quoteWith 39 (· == 39) path := by
  have each : (fun c : UInt16 => if c = 39 then [39, 39] else [c]) =
      fun c => if c == 39 then [c, c] else [c] := by
    funext c
    by_cases apostrophe : c = 39 <;> simp [apostrophe]
  rw [psQuote, quoteWith, doubleEach, each]

theorem doubled_iff_onlyApostrophes :
    (∀ c ∈ path, (c == 39) = (powershell pair).isMark c) ↔ OnlyApostrophes path := by
  have each : ∀ c : UInt16, (c == 39) = isSingleQuote c ↔
      c ≠ 0x2018 ∧ c ≠ 0x2019 ∧ c ≠ 0x201A ∧ c ≠ 0x201B := by
    intro c
    by_cases apostrophe : c = 39
    · simp [isSingleQuote, apostrophe]
    · have plain : (c == 39) = false := beq_eq_false_iff_ne.2 apostrophe
      simp [isSingleQuote, plain, and_assoc]
  exact forall₂_congr fun c _ => each c

/-- What PowerShell reads at a quoted path, whatever stands behind it. -/
theorem tokens_psQuote_iff (unmarked : Unmarked (powershell pair) rest)
    {more : List (Token UInt16)} :
    tokens (powershell pair) (psQuote path ++ rest) = .literal path :: more ↔
      OnlyApostrophes path ∧ tokens (powershell pair) rest = more := by
  have marks : ∀ c : UInt16, (c == 39) = true → (powershell pair).isMark c = true := by
    intro c apostrophe
    rw [beq_iff_eq] at apostrophe
    rw [apostrophe]
    rfl
  rw [psQuote_eq, tokens_quoteWith_iff (by rfl) marks unmarked, doubled_iff_onlyApostrophes]

theorem onlyApostrophes_append {front back : WideText} :
    OnlyApostrophes (front ++ back) ↔ OnlyApostrophes front ∧ OnlyApostrophes back := by
  exact List.forall_mem_append

theorem joinWide_eq (directory name : WideText) :
    joinWide directory name = directory ++ name ∨
      joinWide directory name = directory ++ 92 :: name := by
  simp only [joinWide]
  split_ifs
  · exact .inr rfl
  · exact .inl rfl
  · exact .inl rfl
  · exact .inr rfl

theorem onlyApostrophes_joinWide {directory name : WideText} (plain : OnlyApostrophes name) :
    OnlyApostrophes (joinWide directory name) ↔ OnlyApostrophes directory := by
  have slashed : OnlyApostrophes (92 :: name) := by
    intro c member
    rcases List.mem_cons.1 member with rfl | member
    · decide
    · exact plain c member
  rcases joinWide_eq directory name with joined | joined
  · rw [joined, onlyApostrophes_append, and_iff_left plain]
  · rw [joined, onlyApostrophes_append, and_iff_left slashed]

theorem powershellScript_eq (kind : AgentKind) (cwd directory : WideText) :
    powershellScript kind cwd directory =
      wide "Set-Location -LiteralPath " ++ (psQuote cwd ++ (wide "; $mcp=" ++
        (psQuote (siblingMcpWide directory) ++ (wide "; $runtime=" ++
          (psQuote (siblingRuntimeWide directory) ++ scriptTail kind))))) := by
  have joined : wide "; $mcp=" = wide "; " ++ wide "$mcp=" := by decide
  simp only [powershellScript, scriptTail, joined, List.append_assoc]

/-- A text without quotation marks is read as it stands. -/
theorem tokens_wide_append {text : WideText} (plain : text.all (!isSingleQuote ·) = true)
    {more : List (Token UInt16)} :
    tokens (powershell pair) (text ++ rest) = text.map .plain ++ more ↔
      tokens (powershell pair) rest = more := by
  have bare : ∀ c ∈ text, (powershell pair).isMark c = false := by
    intro c member
    have own := List.all_eq_true.1 plain c member
    rwa [Bool.not_eq_true'] at own
  rw [tokens_append_plain bare, List.append_cancel_left_eq]

/-- The script keeps its structure, with each path as one literal, exactly where neither the
working directory nor the install directory has a typographic single quotation mark. -/
theorem tokens_powershellScript_iff (kind : AgentKind) (cwd directory : WideText) :
    tokens (powershell pair) (powershellScript kind cwd directory) =
        scriptTokens pair kind cwd (siblingMcpWide directory) (siblingRuntimeWide directory) ↔
      OnlyApostrophes cwd ∧ OnlyApostrophes directory := by
  have mcp : OnlyApostrophes (siblingMcpWide directory) ↔ OnlyApostrophes directory :=
    onlyApostrophes_joinWide (by decide)
  have runtime : OnlyApostrophes (siblingRuntimeWide directory) ↔ OnlyApostrophes directory :=
    onlyApostrophes_joinWide (by decide)
  have semicolon : ∀ text : WideText, Unmarked (powershell pair) (wide "; " ++ text) := by
    intro text
    exact unmarked_cons.2 rfl
  have first : ∀ text : WideText, Unmarked (powershell pair) (wide "; $mcp=" ++ text) := by
    intro text
    exact unmarked_cons.2 rfl
  have second : ∀ text : WideText, Unmarked (powershell pair) (wide "; $runtime=" ++ text) := by
    intro text
    exact unmarked_cons.2 rfl
  have last : Unmarked (powershell pair) (scriptTail kind) := by
    rw [scriptTail, List.append_assoc]
    exact semicolon _
  rw [powershellScript_eq, scriptTokens, tokens_wide_append (by decide),
    tokens_psQuote_iff (first _), tokens_wide_append (by decide), tokens_psQuote_iff (second _),
    tokens_wide_append (by decide), tokens_psQuote_iff last, mcp, runtime]
  tauto

/-- A quoted path is one literal with the path as its value, and the script has one structure,
exactly as long as apostrophes are the paths' only single quotation marks. -/
theorem powershell_quoting_iff (pair : PairReading UInt16) :
    (∀ path : WideText,
      (∀ rest, Unmarked (powershell pair) rest →
        tokens (powershell pair) (psQuote path ++ rest) =
          .literal path :: tokens (powershell pair) rest) ↔ OnlyApostrophes path) ∧
    (∀ kind cwd directory,
      tokens (powershell pair) (powershellScript kind cwd directory) =
          scriptTokens pair kind cwd (siblingMcpWide directory) (siblingRuntimeWide directory) ↔
        OnlyApostrophes cwd ∧ OnlyApostrophes directory) := by
  constructor
  · intro path
    constructor
    · intro reads
      have alone : Unmarked (powershell pair) [] := by simp [Unmarked]
      exact ((tokens_psQuote_iff alone).1 (reads [] alone)).1
    · intro plain rest unmarked
      exact (tokens_psQuote_iff unmarked).2 ⟨plain, rfl⟩
  · exact tokens_powershellScript_iff

/-- The reading in which the first mark of a pair stands. -/
def firstOfPair : PairReading UInt16 where
  one a _ := a
  one_either _ _ := .inl rfl

/-- The folder `Tom’s` ends its literal behind `Tom`; what a folder name has between two such
marks runs as a command. -/
theorem typographic_mark_breaks_literal :
    ¬ (∀ (pair : PairReading UInt16) (path rest : WideText), Unmarked (powershell pair) rest →
        tokens (powershell pair) (psQuote path ++ rest) =
          .literal path :: tokens (powershell pair) rest) ∧
    tokens (powershell firstOfPair) (psQuote (wide "Tom\u2019s") ++ wide "; ") =
      .literal (wide "Tom") :: (.plain 115 :: [.unclosed (wide "; ")]) ∧
    tokens (powershell firstOfPair) (psQuote (wide "a\u2019;calc;\u2019") ++ wide "; ") =
      .literal (wide "a") ::
        ((wide ";calc;").map .plain ++ .literal [] :: (wide "; ").map .plain) := by
  refine ⟨?_, by decide, by decide⟩
  intro all
  exact absurd (all firstOfPair (wide "Tom\u2019s") (wide "; ") (by decide)) (by decide)

end Such.AgentLauncher
