import Such.Base.DrivenMachine
import Such.Base.Utf8
import Such.Platform.X11Frontend

/-! What Backspace leaves of the query. The byte popped first is the last one, so the leading byte
of a longer character stays, and after an ASCII character the tail of the one before goes too. -/
namespace Such.X11Frontend
open ByteText Utf8 DrivenMachine Frontend

section Popping

/-- The last two characters, as far as there are any, are ASCII. -/
def PlainEnd (cs : List Char) : Prop := ∀ c ∈ cs.rtake 2, c.toNat < 0x80

theorem plainEnd_concat (t : List Char) (c : Char) :
    PlainEnd (t ++ [c]) ↔ c.toNat < 0x80 ∧ ∀ d ∈ t.getLast?, d.toNat < 0x80 := by
  have taken : (t ++ [c]).rtake 2 = t.rtake 1 ++ [c] :=
    List.rtake_concat_succ ..
  rw [PlainEnd, taken, List.forall_mem_append, List.forall_mem_singleton, and_comm]
  rcases List.eq_nil_or_concat t with rfl | ⟨init, d, rfl⟩
  · simp
  · rw [List.concat_eq_append, List.rtake_concat_succ, List.rtake_zero]
    simp

/-- A text keeps its end under the popping of continuation bytes when it ends in ASCII. -/
theorem rdropWhile_utf8 (t : List Char) :
    (utf8 t).rdropWhile isContinuation = utf8 t ↔ ∀ d ∈ t.getLast?, d.toNat < 0x80 := by
  rcases List.eq_nil_or_concat t with rfl | ⟨init, d, rfl⟩
  · simp [utf8]
  · rw [List.concat_eq_append, List.rdropWhile_eq_self_iff]
    have filled : utf8 (init ++ [d]) ≠ [] := by simp [utf8_eq_nil]
    have ends := isContinuation_last init d (List.getLast?_eq_some_getLast filled)
    simp only [filled, ne_eq, not_false_eq_true, forall_const, List.getLast?_append,
      List.getLast?_singleton, Option.some_or, Option.mem_some_iff, forall_eq', ends, not_le]

/-- Exactly the last character goes when it and the one before it are ASCII. -/
theorem popUtf8Codepoint_utf8_iff (t : List Char) (c : Char) :
    popUtf8Codepoint (utf8 (t ++ [c])) = utf8 t ↔ PlainEnd (t ++ [c]) := by
  obtain ⟨lead, rest, starts⟩ := exists_starts c
  rw [plainEnd_concat, ← starts.ascii, utf8_append, utf8_singleton, starts.bytes]
  change ((utf8 t ++ lead :: rest).dropLast.rdropWhile isContinuation) = utf8 t ↔ _
  rcases List.eq_nil_or_concat rest with rfl | ⟨front, d, rfl⟩
  · rw [List.dropLast_concat, rdropWhile_utf8]
    simp
  · -- The leading byte stops the loop.
    have stays : (utf8 t ++ lead :: front).rdropWhile isContinuation = utf8 t ++ [lead] := by
      have all : ∀ b ∈ front, isContinuation b = true := fun b member =>
        starts.continues b (by simp [member])
      rw [List.append_cons, rdropWhile_append_of_all _ all, List.rdropWhile_concat_neg]
      simp [starts.leads]
    rw [List.concat_eq_append, ← List.cons_append, ← List.append_assoc, List.dropLast_concat, stays]
    simp

end Popping

namespace UiState
variable {W σ : Type} (host : X11Host W σ)

theorem query_rootItems (s : UiState W σ) : (s.rootItems host).2.query = s.query := by
  simp only [rootItems]
  split <;> rfl

theorem query_showSearch (s : UiState W σ) : (s.showSearch host).query = s.query := by
  simp only [showSearch]
  split
  · rfl
  · split <;> rfl

theorem query_showQuery (s : UiState W σ) : (s.showQuery host).query = s.query := by
  simp only [showQuery]
  split
  · rfl
  · split
    · rfl
    · split
      · split
        · rfl
        · split
          · exact query_rootItems host _
          · rfl
      · exact query_showSearch host _

theorem query_refreshQuery (resetScroll : Bool) (s : UiState W σ) :
    (s.refreshQuery host resetScroll).query = s.query := query_showQuery host s

theorem query_acceptQuery (query : Bytes) (s : UiState W σ) :
    (s.acceptQuery host query).query = query := by
  simp only [acceptQuery]
  split
  · exact query_refreshQuery host true _
  · rfl

theorem query_draw (s : UiState W σ) : (s.draw host).query = s.query := by
  simp only [draw]
  split <;> rfl

/-- A printable key without a shortcut's modifier appends what it commits, whatever its symbol. -/
theorem query_keyPress_commit {key : KeyPress} (printable : hasPrintableUtf8Commit key = true)
    (plain : key.mod1 = false) (s : UiState W σ) :
    ∃ t, s.keyPress host key = some t ∧ t.query = s.query ++ key.text := by
  have typed : (s.typedKey host key).query = s.query ++ key.text := by
    have noShortcut : s.shortcut key = none := by simp [shortcut, plain]
    simp only [typedKey, noShortcut, printable, if_true]
    exact query_acceptQuery host _ s
  simp only [keyPress, printable, Bool.true_and]
  cases keysym : key.keysym with
  | letterI | letterL | letterP | other => exact ⟨_, rfl, typed⟩
  | _ => exact ⟨_, rfl, query_acceptQuery host _ s⟩

/-- Backspace pops the query, an empty one too. -/
theorem query_keyPress_backSpace {key : KeyPress} (keysym : key.keysym = .backSpace)
    (unprinted : hasPrintableUtf8Commit key = false) (s : UiState W σ) :
    ∃ t, s.keyPress host key = some t ∧ t.query = popUtf8Codepoint s.query := by
  simp only [keyPress, unprinted, Bool.false_and, keysym]
  by_cases empty : s.query = []
  · refine ⟨s.typedKey host key, by simp [empty], ?_⟩
    have noShortcut : s.shortcut key = none := by
      simp only [shortcut, keysym]
      split <;> rfl
    simp only [typedKey, noShortcut, unprinted, empty]
    exact empty
  · exact ⟨_, by simp [empty], query_acceptQuery host _ s⟩

/-- A key that commits text, or Backspace. -/
inductive EditKey where
  | commit (keysym : KeySym) (text : List Char)
    (printable : hasPrintableUtf8Commit { keysym := keysym, text := utf8 text } = true)
  | backSpace (text : Bytes) (mod1 : Bool)
    (unprinted : hasPrintableUtf8Commit { keysym := .backSpace, text := text, mod1 := mod1 } = false)

def EditKey.key : EditKey → KeyPress
  | .commit keysym text _ => { keysym := keysym, text := utf8 text }
  | .backSpace text mod1 _ => { keysym := .backSpace, text := text, mod1 := mod1 }

/-- What the key is to do to the characters of the query. -/
def EditKey.edit (cs : List Char) : EditKey → List Char
  | .commit _ text _ => cs ++ text
  | .backSpace _ _ _ => cs.dropLast

/-- The frontend's step on a key, and the characters the query is to have. -/
def editStep (state : UiState W σ × List Char) (input : W × EditKey) :
    Option (UiState W σ × List Char) :=
  (state.1.step host (input.1, .keyPress input.2.key)).map (·, input.2.edit state.2)

/-- A Backspace meets ASCII at the end of the query. -/
def PlainErase (state : UiState W σ × List Char) (input : W × EditKey) : Prop :=
  match input.2 with
  | .commit _ _ _ => True
  | .backSpace _ _ _ => PlainEnd state.2

/-- The query is the text of those characters. -/
def Spells (state : UiState W σ × List Char) : Prop := state.1.query = utf8 state.2

theorem editStep_commit (state : UiState W σ × List Char) (world : W) {keysym : KeySym}
    {text : List Char} (printable : hasPrintableUtf8Commit { keysym := keysym, text := utf8 text } = true) :
    ∃ t, editStep host state (world, .commit keysym text printable) = some (t, state.2 ++ text) ∧
      t.query = state.1.query ++ utf8 text := by
  obtain ⟨t, pressed, query⟩ := query_keyPress_commit host printable rfl { state.1 with world := world }
  refine ⟨t.draw host, ?_, (query_draw host t).trans query⟩
  simp only [editStep, step, handle, EditKey.key, pressed]
  rfl

theorem editStep_backSpace (state : UiState W σ × List Char) (world : W) {text : Bytes} {mod1 : Bool}
    (unprinted : hasPrintableUtf8Commit { keysym := .backSpace, text := text, mod1 := mod1 } = false) :
    ∃ t, editStep host state (world, .backSpace text mod1 unprinted) = some (t, state.2.dropLast) ∧
      t.query = popUtf8Codepoint state.1.query := by
  obtain ⟨t, pressed, query⟩ := query_keyPress_backSpace host rfl unprinted
    { state.1 with world := world }
  refine ⟨t.draw host, ?_, (query_draw host t).trans query⟩
  simp only [editStep, step, handle, EditKey.key, pressed]
  rfl

theorem popUtf8Codepoint_spells {cs : List Char} :
    popUtf8Codepoint (utf8 cs) = utf8 cs.dropLast ↔ PlainEnd cs := by
  rcases List.eq_nil_or_concat cs with rfl | ⟨init, c, rfl⟩
  · exact iff_of_true rfl (by simp [PlainEnd])
  · rw [List.concat_eq_append, List.dropLast_concat]
    exact popUtf8Codepoint_utf8_iff init c

theorem editStep_spells {state next : UiState W σ × List Char} {input : W × EditKey}
    (spells : Spells state) (plain : PlainErase state input) (run : editStep host state input = some next) :
    Spells next := by
  obtain ⟨world, key⟩ := input
  cases key with
  | commit keysym text printable =>
    obtain ⟨t, stepped, query⟩ := editStep_commit host state world printable
    cases stepped.symm.trans run
    rw [Spells, query, spells, utf8_append]
  | backSpace text mod1 unprinted =>
    obtain ⟨t, stepped, query⟩ := editStep_backSpace host state world unprinted
    cases stepped.symm.trans run
    rw [Spells, query, spells]
    exact popUtf8Codepoint_spells.mpr plain

theorem plainErase_of_spells {state : UiState W σ × List Char} {input : W × EditKey}
    (spells : Spells state) (onward : ∀ next, editStep host state input = some next → Spells next) :
    PlainErase state input := by
  obtain ⟨world, key⟩ := input
  cases key with
  | commit keysym text printable => trivial
  | backSpace text mod1 unprinted =>
    obtain ⟨t, stepped, query⟩ := editStep_backSpace host state world unprinted
    have kept := onward _ stepped
    rw [Spells, query, spells] at kept
    exact popUtf8Codepoint_spells.mp kept

/-- Backspace takes exactly the last character, in every state of every run of editing keys,
exactly when it always meets two ASCII characters, or one that is the first, or nothing. -/
theorem spells_run_iff :
    (∀ (t : List Char) (c : Char), popUtf8Codepoint (utf8 (t ++ [c])) = utf8 t ↔ PlainEnd (t ++ [c])) ∧
      ∀ (s : UiState W σ) (cs : List Char) (inputs : List (W × EditKey)), s.query = utf8 cs →
        ((∀ state ∈ trail (editStep host) (s, cs) inputs, Spells state) ↔
          Throughout (editStep host) PlainErase (s, cs) inputs) := by
  constructor
  · exact popUtf8Codepoint_utf8_iff
  · intro s cs inputs start
    have first : Spells (s, cs) := start
    apply forall_trail_iff _ _ first
    · intro state input next spells plain run
      exact editStep_spells host spells plain run
    · intro state input spells onward
      exact plainErase_of_spells host spells onward

end UiState

/-- A syllable loses only its last two bytes. -/
theorem popUtf8Codepoint_splits_syllable :
    ¬ ∀ (t : List Char) (c : Char), popUtf8Codepoint (utf8 (t ++ [c])) = utf8 t := by
  intro every
  have popped := every [] (Char.ofNat 0xD55C)
  revert popped
  decide

end Such.X11Frontend
