import Such.Ui.SearchDialect

/-! The commands a query can stand for: index roots, AI agents and the font. -/
namespace Such.QueryCommands
open ByteText SearchDialect

inductive IndexCommandKind where
  | noCommand
  | addRoot
  | replaceRoot
  | reindex
  | showRoots
deriving DecidableEq, Repr

structure IndexCommand where
  kind : IndexCommandKind := .noCommand
  isMatched : Bool := false
  argument : Option Bytes := none
deriving DecidableEq, Repr

def trimLower (value : Bytes) : Bytes := lower (trim value)

/-- Trimmed, and without one pair of matching quotes around it. -/
def cleanedArgument (argument : Bytes) : Option Bytes :=
  let argument := trim argument
  let quoted := argument.head? = argument.getLast? ∧
    (argument.head? = some 34 ∨ argument.head? = some 39)
  let argument := if 2 ≤ argument.length ∧ quoted then substr argument 1 (argument.length - 2)
    else argument
  if argument.isEmpty then none else some argument

/-- What follows a command token and one more byte, in the query as it was typed. -/
def typedArgument (query token : Bytes) : Option Bytes :=
  cleanedArgument ((query.dropWhile isSpace).drop (token.length + 1))

def shardModes : List Bytes := ["auto", "1", "2", "4", "8", "16"].map lit

def parseIndexCommand (query : Bytes) (dialect : PlatformDialect) : IndexCommand :=
  let value := trimLower query
  let indexToken := operatorPrefix dialect ++ lit "index"
  let driveToken := operatorPrefix dialect ++ lit "drive"
  if dialect = .windows ∧ (value = lit "%appdata%" ∨ value = lit "%localappdata%") then
    ⟨.addRoot, true, some value⟩
  else if value = indexToken then
    ⟨if dialect = .windows then .reindex else .addRoot, true, none⟩
  else if startsWith value (indexToken ++ [32]) then
    let mode := trimLower (value.drop (indexToken.length + 1))
    if dialect = .windows ∧ mode ∈ shardModes then ⟨.reindex, true, some mode⟩
    else ⟨.addRoot, true, typedArgument query indexToken⟩
  else if value = driveToken then ⟨.replaceRoot, true, none⟩
  else if startsWith value (driveToken ++ [32]) then
    ⟨.replaceRoot, true, typedArgument query driveToken⟩
  else if value = operatorPrefix dialect ++ lit "reindex" then ⟨.reindex, true, none⟩
  else if value = operatorPrefix dialect ++ lit "roots" then ⟨.showRoots, true, none⟩
  else {}

inductive AgentKind where
  | claude
  | codex
deriving DecidableEq, Repr

def isAgentBlank (b : UInt8) : Bool := b == 32 || b == 9 || b == 13 || b == 10

def trimAscii (value : Bytes) : Bytes := (value.dropWhile isAgentBlank).rdropWhile isAgentBlank

/-- The agent a query asks for, with the platform's prefix or a single slash. -/
def parseAgentCommand (query : Bytes) (dialect : PlatformDialect) : Option AgentKind :=
  let text := lower (trimAscii query)
  if text = operatorPrefix dialect ++ lit "claude" ∨ text = lit "/claude" then some .claude
  else if text = operatorPrefix dialect ++ lit "codex" ∨ text = lit "/codex" then some .codex
  else none

structure FontOption where
  aliasName : Bytes
  family : Bytes
  label : Bytes
deriving DecidableEq, Repr

structure FontCommand where
  isMatched : Bool := false
  showPicker : Bool := false
  requestedFamily : Option Bytes := none
deriving DecidableEq, Repr

def builtinFontOptions : List FontOption := [
  ⟨lit "google", lit "Google Sans Flex", lit "Google Sans Flex"⟩,
  ⟨lit "gowun", lit "Gowun Batang", lit "Gowun Batang"⟩,
  ⟨lit "kopub-dotum", lit "KoPubWorldDotum_Pro", lit "KoPubWorld Dotum"⟩,
  ⟨lit "kopub-batang", lit "KoPubWorldBatang_Pro", lit "KoPubWorld Batang"⟩,
  ⟨lit "continuous", lit "Continuous", lit "Continuous"⟩]

/-- The empty family is the system's default. -/
def familyForAlias (token : Bytes) : Bytes :=
  let needle := lower (trim token)
  if needle.isEmpty ∨ needle = lit "system" ∨ needle = lit "default" then []
  else
    match builtinFontOptions.find? fun option =>
        needle == lower option.aliasName || needle == lower option.family ||
          needle == lower option.label with
    | some option => option.family
    | none => trim token

def parseFontCommand (query : Bytes) (dialect : PlatformDialect) : FontCommand :=
  let normalized := trim query
  let command := operatorPrefix dialect ++ lit "font"
  if normalized = command then { isMatched := true, showPicker := true }
  else if !startsWith normalized (command ++ [32]) then {}
  else
    let requested := trim (normalized.drop (command.length + 1))
    if requested.isEmpty then { isMatched := true, showPicker := true }
    else { isMatched := true, requestedFamily := some (familyForAlias requested) }

example : parseIndexCommand (lit " //INDEX \"/srv/My Files\" ") .unixLike =
    ⟨.addRoot, true, some (lit "/srv/My Files")⟩ := by decide

end Such.QueryCommands
