import Such.Base.ShellText
import Such.Ui.AgentLauncher

/-! The POSIX script read as a shell reads it: its fixed texts begin and end between tokens, and
each path is the quoted part of one word. -/
namespace Such.AgentLauncher
open ByteText LexicalPath QueryCommands ShellText

/-- A word of bare characters with a quoted value behind them. -/
def valueWord (name value : Bytes) : Token := .word (name.map .bare ++ value.map .quoted)

/-- The text behind the last path. -/
def scriptEnd (kind : AgentKind) : Bytes :=
  lit "[ -f \"$RUNTIME\" ] || \x7b echo 'Such private runtime is missing beside the Such " ++
  lit "executable.' >&2; exit 74; \x7d; " ++ posixAgent kind

/-- The script's tokens: the paths are the values of three words, and nothing else depends on
them. -/
def agentTokens (kind : AgentKind) (cwd mcp runtime : Bytes) : List Token :=
  (run {} (lit "set -e; cd -- ")).1 ++
    valueWord [] cwd :: .operator (lit ";") :: valueWord (lit "MCP=") mcp :: .operator (lit ";") ::
      ((run {} bootstrapLines.flatten).1 ++ valueWord (lit "RUNTIME=") runtime ::
        .operator (lit ";") :: (tokens (scriptEnd kind)).getD [])

variable {cwd directory value rest : Bytes}

theorem shellQuotePosix_eq (value : Bytes) : shellQuotePosix value = singleQuote value := rfl

theorem posixAgentScript_eq (kind : AgentKind) : posixAgentScript kind cwd directory =
    lit "set -e; cd -- " ++ (singleQuote cwd ++ (lit "; " ++
      (lit "MCP=" ++ (singleQuote (siblingMcpPath directory) ++ (lit "; " ++
        (bootstrapLines.flatten ++
          (lit "RUNTIME=" ++ (singleQuote (siblingRuntimePath directory) ++ (lit "; " ++
            scriptEnd kind))))))))) := by
  simp only [posixAgentScript, posixMcpBootstrap, scriptEnd, shellQuotePosix_eq, List.append_assoc]

theorem bootstrapLines_closed : ∀ text ∈ bootstrapLines, Closed text := by
  decide +kernel

theorem scriptEnd_complete (kind : AgentKind) : (tokens (scriptEnd kind)).isSome = true := by
  cases kind <;> decide +kernel

theorem noNul_bootstrapLines : 0 ∉ bootstrapLines.flatten := by
  decide +kernel

theorem noNul_scriptEnd (kind : AgentKind) : 0 ∉ scriptEnd kind := by
  cases kind <;> decide +kernel

theorem noNul_joinName {name : Bytes} (free : 0 ∉ directory) (own : 0 ∉ name) :
    0 ∉ joinName .posix directory name := by
  have slashed : 0 ∉ preferred .posix :: name := by
    rw [List.mem_cons, not_or]
    exact ⟨by decide, own⟩
  simp only [joinName]
  split_ifs
  all_goals
    rw [List.mem_append, not_or]
    exact ⟨free, by assumption⟩

theorem noNul_posixAgentScript (kind : AgentKind) (cwdFree : 0 ∉ cwd) (free : 0 ∉ directory) :
    0 ∉ posixAgentScript kind cwd directory := by
  have first := not_mem_singleQuote cwdFree
  have second : 0 ∉ singleQuote (siblingMcpPath directory) :=
    not_mem_singleQuote (noNul_joinName free (by decide))
  have third : 0 ∉ singleQuote (siblingRuntimePath directory) :=
    not_mem_singleQuote (noNul_joinName free (by decide))
  rw [posixAgentScript_eq]
  simp only [List.mem_append, not_or]
  exact ⟨by decide, first, by decide, by decide, second, by decide, noNul_bootstrapLines, by decide,
    third, by decide, noNul_scriptEnd kind⟩

/-- A value quoted behind a name is one word, which the semicolon ends. -/
theorem run_valueWord {name : Bytes} {word : Option (List Piece)}
    (opens : run {} name = ([], { word := word })) (named : word.getD [] = name.map .bare) :
    run {} (name ++ (singleQuote value ++ (lit "; " ++ rest))) =
      (valueWord name value :: .operator (lit ";") :: (run {} rest).1, (run {} rest).2) := by
  have ends : run (inWord (name.map .bare ++ value.map .quoted)) (lit "; ") =
      ([valueWord name value, .operator (lit ";")], {}) := rfl
  rw [run_append, opens, run_append, run_singleQuote, named, run_append, ends]
  rfl

theorem run_closed {text : Bytes} (closed : Closed text) :
    run {} (text ++ rest) = ((run {} text).1 ++ (run {} rest).1, (run {} rest).2) := by
  rw [run_append, closed]

theorem scriptEnd_finish (kind : AgentKind) :
    ∃ last, (run {} (scriptEnd kind)).2.finish = some last ∧
      (tokens (scriptEnd kind)).getD [] = (run {} (scriptEnd kind)).1 ++ last := by
  obtain ⟨ts, read⟩ := Option.isSome_iff_exists.1 (scriptEnd_complete kind)
  have own := read
  rw [tokens, takeWhile_noNul (noNul_scriptEnd kind), Option.map_eq_some_iff] at own
  obtain ⟨last, finish, rfl⟩ := own
  exact ⟨last, finish, by rw [read, Option.getD_some]⟩

theorem tokens_posixAgentScript (kind : AgentKind) (cwdFree : 0 ∉ cwd) (free : 0 ∉ directory) :
    tokens (posixAgentScript kind cwd directory) =
      some (agentTokens kind cwd (siblingMcpPath directory) (siblingRuntimePath directory)) := by
  have opening : Closed (lit "set -e; cd -- ") := by decide
  have bootstrap : Closed bootstrapLines.flatten := Closed.flatten bootstrapLines_closed
  have directoryWord : ∀ rest : Bytes, run {} (singleQuote cwd ++ (lit "; " ++ rest)) =
      (valueWord [] cwd :: .operator (lit ";") :: (run {} rest).1, (run {} rest).2) := by
    intro rest
    exact @run_valueWord cwd rest [] none rfl rfl
  have mcpOpens : run {} (lit "MCP=") = ([], inWord ((lit "MCP=").map .bare)) := by decide
  have runtimeOpens : run {} (lit "RUNTIME=") = ([], inWord ((lit "RUNTIME=").map .bare)) := by
    decide
  rw [tokens, takeWhile_noNul (noNul_posixAgentScript kind cwdFree free), posixAgentScript_eq,
    run_closed opening, directoryWord, run_valueWord mcpOpens rfl, run_closed bootstrap,
    run_valueWord runtimeOpens rfl]
  obtain ⟨last, finish, ending⟩ := scriptEnd_finish kind
  rw [finish, Option.map_some, agentTokens, ending]
  simp only [List.append_assoc, List.cons_append]

/-- A quoted value is one word that is the value, with nothing in it left to expand; so the paths
are the only tokens in which two scripts for one agent can differ. -/
theorem posix_quoting :
    (∀ value : Bytes, 0 ∉ value →
      tokens (shellQuotePosix value) = some [.word (value.map .quoted)] ∧
        literalValue (.word (value.map .quoted)) = some value) ∧
    (∀ kind cwd directory, 0 ∉ cwd → 0 ∉ directory →
      tokens (posixAgentScript kind cwd directory) =
        some (agentTokens kind cwd (siblingMcpPath directory) (siblingRuntimePath directory))) := by
  constructor
  · intro value free
    exact ⟨tokens_singleQuote free, literalValue_quoted⟩
  · intro kind cwd directory cwdFree free
    exact tokens_posixAgentScript kind cwdFree free

/-- A working directory with an apostrophe, a command substitution, a variable and quotes. -/
def hostileDirectory : Bytes := lit "/srv/o'neil $(reboot) $HOME \"a\\"

theorem hostile_directory_quoted :
    (tokens (shellQuotePosix hostileDirectory) = some [.word (hostileDirectory.map .quoted)] ∧
        literalValue (.word (hostileDirectory.map .quoted)) = some hostileDirectory) ∧
      tokens (posixAgentScript .claude hostileDirectory (lit "/opt/such")) =
        some (agentTokens .claude hostileDirectory (lit "/opt/such/SuchMCP")
          (lit "/opt/such/libSuchRuntimePrivate.so")) :=
  ⟨posix_quoting.1 hostileDirectory (by decide),
    posix_quoting.2 .claude hostileDirectory (lit "/opt/such") (by decide) (by decide)⟩

end Such.AgentLauncher
