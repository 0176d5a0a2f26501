import Such.Ui.QueryCommands

/-! A quoted index path reaches the command as it was typed. -/
namespace Such.QueryCommands
open ByteText SearchDialect

/-- A command word, one space and a path in quotation marks, between blanks. -/
def quotedCommand (before command path after : Bytes) : Bytes :=
  before ++ command ++ [32, 34] ++ path ++ [34] ++ after

section Words

variable {dialect : PlatformDialect} {command name : Bytes}

/-- Every spelling of a command word starts with the slash of its dialect's mark. -/
theorem command_head (spelled : lower command = operatorPrefix dialect ++ name) :
    ∃ rest, command = 47 :: rest := by
  have slash : ∃ rest, operatorPrefix dialect = 47 :: rest := by
    cases dialect
    · exact ⟨[], rfl⟩
    · exact ⟨[47], rfl⟩
  obtain ⟨rest, mark⟩ := slash
  rw [mark] at spelled
  cases command with
  | nil => exact absurd spelled (by simp [lower])
  | cons first tail =>
    have folded : toLower first = 47 := (List.cons.inj spelled).1
    exact ⟨tail, by rw [(toLower_eq_iff (by decide)).mp folded]⟩

/-- The tests on the folded query that a command word with an argument passes and fails. -/
theorem folded_tests (dialect : PlatformDialect) (argument : Bytes) :
    (∀ name ∈ [lit "%appdata%", lit "%localappdata%"], ∀ word : Bytes,
      operatorPrefix dialect ++ word ++ [32] ++ argument ≠ name) ∧
    (∀ word : Bytes, operatorPrefix dialect ++ word ++ [32] ++ argument ≠
      operatorPrefix dialect ++ word) ∧
    (∀ word : Bytes, startsWith (operatorPrefix dialect ++ word ++ [32] ++ argument)
      (operatorPrefix dialect ++ word ++ [32]) = true) ∧
    operatorPrefix dialect ++ lit "drive" ++ [32] ++ argument ≠
      operatorPrefix dialect ++ lit "index" ∧
    startsWith (operatorPrefix dialect ++ lit "drive" ++ [32] ++ argument)
      (operatorPrefix dialect ++ lit "index" ++ [32]) = false := by
  have apart : ∀ first second : Bytes, lit "drive" ++ first ≠ lit "index" ++ second := by
    intro first second same
    have heads : some (100 : UInt8) = some 105 := congrArg List.head? same
    exact absurd heads (by decide)
  refine ⟨?_, ?_, ?_, ?_, ?_⟩
  · intro name member word same
    have mark : (operatorPrefix dialect ++ word ++ [32] ++ argument).head? = some 47 := by
      cases dialect <;> rfl
    have percent : ∀ name ∈ [lit "%appdata%", lit "%localappdata%"], name.head? ≠ some 47 := by
      decide +kernel
    exact percent name member (same ▸ mark)
  · intro word same
    have lengths := congrArg List.length same
    simp at lengths
  · intro word
    exact List.isPrefixOf_iff_prefix.mpr (List.prefix_append _ _)
  · intro same
    rw [List.append_assoc, List.append_assoc] at same
    exact apart _ [] (by simpa using List.append_cancel_left same)
  · rw [Bool.eq_false_iff]
    intro starts
    obtain ⟨rest, same⟩ := List.isPrefixOf_iff_prefix.mp starts
    simp only [List.append_assoc] at same
    exact apart _ _ (List.append_cancel_left same).symm

end Words

section Quoted

variable {before after path : Bytes} (blank : ∀ b ∈ after, isSpace b = true)
include blank

/-- Unquoting removes the outermost marks and leaves what they enclose, marks included. -/
theorem cleanedArgument_quoted (filled : path ≠ []) :
    cleanedArgument (34 :: path ++ [34] ++ after) = some path := by
  have nothing : ∀ b ∈ ([] : Bytes), isSpace b = true := by simp
  have trimmed : trim (34 :: path ++ [34] ++ after) = 34 :: path ++ [34] :=
    trim_surrounded nothing blank rfl rfl
  have two : 2 ≤ (34 :: path ++ [34] : Bytes).length := by simp
  have marked : (34 :: path ++ [34] : Bytes).head? = (34 :: path ++ [34]).getLast? ∧
      ((34 :: path ++ [34] : Bytes).head? = some 34 ∨
        (34 :: path ++ [34] : Bytes).head? = some 39) := by
    rw [List.getLast?_append]
    exact ⟨rfl, .inl rfl⟩
  have inner : substr (34 :: path ++ [34]) 1 ((34 :: path ++ [34] : Bytes).length - 2) = path := by
    simp [substr]
  simp only [cleanedArgument, trimmed, if_pos (And.intro two marked), inner]
  exact if_neg (by simpa using filled)

variable (lead : ∀ b ∈ before, isSpace b = true)
include lead

/-- Past the word and the space, the query as typed is the marked path and trailing blanks. -/
theorem typedArgument_quoted {rest token : Bytes} (spelled : lower (47 :: rest) = token)
    (filled : path ≠ []) :
    typedArgument (quotedCommand before (47 :: rest) path after) token = some path := by
  have shape : quotedCommand before (47 :: rest) path after =
      before ++ (47 :: rest ++ [32] ++ (34 :: path ++ [34] ++ after)) := by
    simp [quotedCommand]
  have front : (quotedCommand before (47 :: rest) path after).dropWhile isSpace =
      47 :: rest ++ [32] ++ (34 :: path ++ [34] ++ after) := by
    rw [shape, List.dropWhile_append_of_pos lead]
    rfl
  have long : token.length + 1 = (47 :: rest ++ [32]).length := by
    simp [← spelled]
  rw [typedArgument, front, long, List.drop_left]
  exact cleanedArgument_quoted blank filled

/-- What the command words are compared with. -/
theorem trimLower_quoted {rest token : Bytes} (spelled : lower (47 :: rest) = token) :
    trimLower (quotedCommand before (47 :: rest) path after) =
      token ++ [32] ++ (34 :: lower path ++ [34]) := by
  have shape : quotedCommand before (47 :: rest) path after =
      before ++ (47 :: (rest ++ [32, 34] ++ path) ++ [34]) ++ after := by
    simp [quotedCommand]
  have fold : lower (47 :: (rest ++ [32, 34] ++ path) ++ [34]) =
      lower (47 :: rest) ++ [32] ++ (34 :: lower path ++ [34]) := by
    simp [lower, toLower, isUpper]
  rw [trimLower, shape, trim_surrounded lead blank rfl rfl, fold, spelled]

omit blank lead in
/-- A marked argument is no shard mode, whatever stands between the marks. -/
theorem quoted_notMem_shardModes (path : Bytes) :
    trimLower (34 :: lower path ++ [34]) ∉ shardModes := by
  have trimmed : trim ([] ++ (34 :: lower path ++ [34]) ++ []) = 34 :: lower path ++ [34] :=
    trim_surrounded (by simp) (by simp) rfl rfl
  have head : (trimLower (34 :: lower path ++ [34])).head? = some 34 := by
    rw [List.nil_append, List.append_nil] at trimmed
    rw [trimLower, trimmed]
    rfl
  have plain : ∀ mode ∈ shardModes, mode.head? ≠ some 34 := by decide +kernel
  exact fun member => plain _ member head

/-- An index or drive command with a quoted path asks for exactly that path: no blank around the
command, no letter case of its word and no byte between the marks changes what arrives. -/
theorem parseIndexCommand_quoted (dialect : PlatformDialect) (filled : path ≠ [])
    (command : Bytes) :
    (lower command = operatorPrefix dialect ++ lit "index" →
      parseIndexCommand (quotedCommand before command path after) dialect =
        ⟨.addRoot, true, some path⟩) ∧
    (lower command = operatorPrefix dialect ++ lit "drive" →
      parseIndexCommand (quotedCommand before command path after) dialect =
        ⟨.replaceRoot, true, some path⟩) := by
  obtain ⟨unset, longer, leads, other, apart⟩ := folded_tests dialect (34 :: lower path ++ [34])
  constructor
  · intro spelled
    obtain ⟨rest, rfl⟩ := command_head spelled
    have value := @trimLower_quoted _ _ path blank lead _ _ spelled
    have typed := typedArgument_quoted blank lead spelled filled
    have mode : ¬(dialect = .windows ∧ trimLower (34 :: lower path ++ [34]) ∈ shardModes) :=
      fun both => quoted_notMem_shardModes path both.2
    have shift : (operatorPrefix dialect ++ lit "index" ++ [32] ++ (34 :: lower path ++ [34])).drop
        ((operatorPrefix dialect ++ lit "index").length + 1) = 34 :: lower path ++ [34] :=
      List.drop_left' (by rw [List.length_append, List.length_singleton])
    simp only [parseIndexCommand, value, typed, shift, leads, if_neg mode, if_true]
    rw [if_neg, if_neg (longer _)]
    rintro ⟨-, same | same⟩
    · exact unset _ (by simp) _ same
    · exact unset _ (by simp) _ same
  · intro spelled
    obtain ⟨rest, rfl⟩ := command_head spelled
    have value := @trimLower_quoted _ _ path blank lead _ _ spelled
    have typed := typedArgument_quoted blank lead spelled filled
    simp only [parseIndexCommand, value, typed, apart, leads, if_neg other, if_neg (longer _),
      Bool.false_eq_true, if_true, if_false]
    apply if_neg
    rintro ⟨-, same | same⟩
    · exact unset _ (by simp) _ same
    · exact unset _ (by simp) _ same

end Quoted

theorem parseIndexCommand_quoted_mode :
    parseIndexCommand (quotedCommand [32] (lit "/Index") (lit "16") [9]) .windows =
      ⟨.addRoot, true, some (lit "16")⟩ :=
  (parseIndexCommand_quoted (by simp [isSpace]) (by simp [isSpace]) .windows (by decide)
    (lit "/Index")).1 (by decide)

end Such.QueryCommands
