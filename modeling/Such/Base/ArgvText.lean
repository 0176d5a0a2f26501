import Mathlib.Data.List.Basic

/-! Splitting a command line into arguments by the rules of a C start-up library: blanks
separate arguments outside quotation marks; a run of backslashes is literal unless a mark
follows it, where every two of them stand for one and an odd last one makes the mark literal.
The alphabet, the two special characters and the blanks are parameters. -/
namespace ArgvText

/-- Some libraries read two marks in a row inside a quoted part as one literal mark. -/
structure ArgvRules (α : Type) where
  slash : α
  mark : α
  blank : α → Bool
  pairs : Bool
  slash_ne_mark : slash ≠ mark
  solid_slash : blank slash = false
  solid_mark : blank mark = false

theorem ArgvRules.ne_slash {α : Type} (rules : ArgvRules α) {c : α} (blank : rules.blank c = true) :
    c ≠ rules.slash := by
  rintro rfl
  simp [rules.solid_slash] at blank

theorem ArgvRules.ne_mark {α : Type} (rules : ArgvRules α) {c : α} (blank : rules.blank c = true) :
    c ≠ rules.mark := by
  rintro rfl
  simp [rules.solid_mark] at blank

/-- The backslashes read last are pending until the character behind them is known. -/
structure ArgvState (α : Type) where
  inArgument : Bool := false
  quoted : Bool := false
  slashes : Nat := 0
  current : List α := []
  skipNext : Bool := false

variable {α : Type} [DecidableEq α] (rules : ArgvRules α)

def ArgvState.text (s : ArgvState α) : List α := s.current ++ List.replicate s.slashes rules.slash

def argvFrom : ArgvState α → List α → List (List α)
  | s, [] => if s.inArgument then [s.text rules] else []
  | s, c :: rest =>
    if s.skipNext then argvFrom { s with skipNext := false } rest
    else if c = rules.slash then
      argvFrom { s with inArgument := true, slashes := s.slashes + 1 } rest
    else if c = rules.mark then
      let halved := s.current ++ List.replicate (s.slashes / 2) rules.slash
      if s.slashes % 2 = 1 then
        argvFrom { inArgument := true, quoted := s.quoted, current := halved ++ [c] } rest
      else if rules.pairs ∧ s.quoted ∧ rest.head? = some rules.mark then
        argvFrom
          { inArgument := true, quoted := true, current := halved ++ [c], skipNext := true } rest
      else argvFrom { inArgument := true, quoted := !s.quoted, current := halved } rest
    else if rules.blank c ∧ s.quoted = false then
      (if s.inArgument then [s.text rules] else []) ++ argvFrom {} rest
    else argvFrom { inArgument := true, quoted := s.quoted, current := s.text rules ++ [c] } rest

/-- The state inside an argument, with `slashes` backslashes pending. -/
def reading (quoted : Bool) (slashes : Nat) (current : List α) : ArgvState α :=
  { inArgument := true, quoted := quoted, slashes := slashes, current := current }

section Steps

variable {rules} {quoted : Bool} {slashes : Nat} {current rest : List α}

theorem argvFrom_slash : argvFrom rules (reading quoted slashes current) (rules.slash :: rest) =
    argvFrom rules (reading quoted (slashes + 1) current) rest := by
  simp [argvFrom, reading]

theorem argvFrom_slashes (n : Nat) :
    argvFrom rules (reading quoted slashes current) (List.replicate n rules.slash ++ rest) =
      argvFrom rules (reading quoted (slashes + n) current) rest := by
  induction n generalizing slashes with
  | zero => rfl
  | succ n ih =>
    rw [List.replicate_succ, List.cons_append, argvFrom_slash, ih, Nat.add_right_comm, Nat.add_assoc]

theorem argvFrom_plain {c : α} (unslashed : c ≠ rules.slash) (unmarked : c ≠ rules.mark)
    (kept : rules.blank c = false ∨ quoted = true) :
    argvFrom rules (reading quoted slashes current) (c :: rest) =
      argvFrom rules (reading quoted 0 (current ++ List.replicate slashes rules.slash ++ [c])) rest := by
  have inside : ¬(rules.blank c = true ∧ quoted = false) := by
    rintro ⟨blank, bare⟩
    rcases kept with solid | marked
    · simp [blank] at solid
    · simp [bare] at marked
  simp only [argvFrom, reading, Bool.false_eq_true, if_false, if_neg unslashed, if_neg unmarked,
    if_neg inside]
  rfl

/-- An odd run of backslashes makes the mark behind it literal. -/
theorem argvFrom_literal (n : Nat) :
    argvFrom rules (reading quoted (2 * n + 1) current) (rules.mark :: rest) =
      argvFrom rules (reading quoted 0 (current ++ List.replicate n rules.slash ++ [rules.mark])) rest := by
  have odd : (2 * n + 1) % 2 = 1 := by omega
  have half : (2 * n + 1) / 2 = n := by omega
  simp only [argvFrom, reading, Bool.false_eq_true, if_false, if_neg rules.slash_ne_mark.symm,
    if_true, odd, half]

/-- An even run of backslashes leaves the mark behind it to end the quoted part. -/
theorem argvFrom_close (n : Nat) (single : rest.head? ≠ some rules.mark) :
    argvFrom rules (reading true (2 * n) current) (rules.mark :: rest) =
      argvFrom rules (reading false 0 (current ++ List.replicate n rules.slash)) rest := by
  have even : (2 * n) % 2 ≠ 1 := by omega
  have half : (2 * n) / 2 = n := by omega
  have lone : ¬(rules.pairs = true ∧ True ∧ rest.head? = some rules.mark) :=
    fun both => single both.2.2
  simp only [argvFrom, reading, Bool.false_eq_true, if_false, if_neg rules.slash_ne_mark.symm,
    if_true, if_neg even, half, if_neg lone]
  rfl

theorem argvFrom_open : argvFrom rules {} (rules.mark :: rest) =
    argvFrom rules (reading true 0 []) rest := by
  simp [argvFrom, reading, rules.slash_ne_mark.symm]

/-- Between arguments, whatever is no blank begins the next one. -/
theorem argvFrom_start {c : α} (solid : rules.blank c = false) :
    argvFrom rules {} (c :: rest) = argvFrom rules (reading false 0 []) (c :: rest) := by
  simp [argvFrom, reading, solid, ArgvState.text]

theorem argvFrom_skip {c : α} (blank : rules.blank c = true) :
    argvFrom rules {} (c :: rest) = argvFrom rules {} rest := by
  simp [argvFrom, rules.ne_slash blank, rules.ne_mark blank, blank]

/-- The end of the line and a blank outside marks end an argument alike. -/
theorem argvFrom_end (stops : ∀ c ∈ rest.head?, rules.blank c = true) :
    argvFrom rules (reading false slashes current) rest =
      (current ++ List.replicate slashes rules.slash) :: argvFrom rules {} rest := by
  cases rest with
  | nil => simp [argvFrom, reading, ArgvState.text]
  | cons c rest =>
    have blank := stops c rfl
    rw [argvFrom_skip blank]
    simp [argvFrom, reading, ArgvState.text, rules.ne_slash blank, rules.ne_mark blank, blank]

end Steps

/-- `code` is read as the one argument `argument` wherever a blank or the end follows it. -/
def ReadsAs (code argument : List α) : Prop :=
  ∀ rest : List α, (∀ c ∈ rest.head?, rules.blank c = true) →
    argvFrom rules {} (code ++ rest) = argument :: argvFrom rules {} rest

section Lines

variable {rules} {encode : List α → List α} {arguments : List (List α)}

theorem argvFrom_intercalate {separator : α} (blank : rules.blank separator = true)
    (reads : ∀ argument ∈ arguments, ReadsAs rules (encode argument) argument) :
    argvFrom rules {} (List.intercalate [separator] (arguments.map encode)) = arguments := by
  induction arguments with
  | nil => rfl
  | cons argument arguments ih =>
    have own := reads argument (by simp)
    have later := ih fun a member => reads a (by simp [member])
    cases arguments with
    | nil => simpa [List.intercalate, argvFrom] using own [] (by simp)
    | cons next arguments =>
      rw [List.map_cons, List.map_cons, List.intercalate_cons_cons, List.append_assoc,
        own _ (by simp [blank]), List.singleton_append, argvFrom_skip blank, ← List.map_cons, later]

end Lines

end ArgvText
