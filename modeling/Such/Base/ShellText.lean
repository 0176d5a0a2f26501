import Such.Base.ByteText

/-! Token recognition and quoting of the POSIX shell (Shell Command Language 2.2 and 2.3). A word
keeps, for each of its characters, whether it was quoted; the text of an expansion stays in the
word it stands in, and a command substitution ends where its parentheses balance. -/
namespace ShellText
open ByteText

/-- A quoted character stands for itself; an active one begins an expansion. -/
inductive Piece where
  | quoted (c : UInt8)
  | bare (c : UInt8)
  | active (c : UInt8)
deriving DecidableEq, Repr

inductive Token where
  | operator (text : Bytes)
  | word (pieces : List Piece)
deriving DecidableEq, Repr

inductive Nesting where
  | quotes
  | braces
  | command
  | backquotes
deriving DecidableEq, Repr

inductive Mode where
  | plain
  | single
  | escaped
  | dollar
  | comment
deriving DecidableEq, Repr

/-- What the reading of a text carries on; the innermost nesting comes first. -/
structure Lexer where
  nestings : List Nesting := []
  mode : Mode := .plain
  word : Option (List Piece) := none
  operator : Bytes := []
deriving DecidableEq, Repr

/-- Single quotation marks are ordinary characters between double ones. -/
def inQuotes : List Nesting → Bool
  | .quotes :: _ => true
  | .braces :: outer => inQuotes outer
  | _ => false

def isOperator (c : UInt8) : Bool :=
  c == 38 || c == 124 || c == 59 || c == 60 || c == 62 || c == 40 || c == 41 || c == 10

def longOperators : List Bytes :=
  ["&&", "||", ";;", "<<", ">>", "<&", ">&", "<>", "<<-", ">|"].map lit

/-- What a backslash keeps quoted between double quotation marks. -/
def isEscapable (c : UInt8) : Bool := c == 36 || c == 96 || c == 34 || c == 92

def Lexer.begin (l : Lexer) : Lexer := { l with word := some (l.word.getD []) }

def Lexer.push (l : Lexer) (piece : Piece) : Lexer :=
  { l with word := some (l.word.getD [] ++ [piece]) }

def Lexer.enter (l : Lexer) (nesting : Nesting) : Lexer :=
  { l with nestings := nesting :: l.nestings }

def Lexer.leave (l : Lexer) : Lexer := { l with nestings := l.nestings.tail }

/-- The word a delimiter ends. -/
def Lexer.finished (l : Lexer) : List Token := l.word.toList.map .word

def Lexer.escape (l : Lexer) (c : UInt8) : Lexer :=
  let l := { l with mode := .plain }
  if c = 10 then l
  else if inQuotes l.nestings && !isEscapable c then (l.push (.quoted 92)).push (.quoted c)
  else l.push (.quoted c)

/-- A character no quotation or nesting encloses. -/
def stepOutside (l : Lexer) (c : UInt8) : List Token × Lexer :=
  if isOperator c then (l.finished, { operator := [c] })
  else if c = 32 ∨ c = 9 then (l.finished, {})
  else if c = 35 ∧ l.word = none then ([], { mode := .comment })
  else ([], l.push (.bare c))

def stepPlain (l : Lexer) (c : UInt8) : List Token × Lexer :=
  let inner := l.nestings.head?
  if c = 92 then ([], { l with mode := .escaped })
  else if c = 36 then ([], { l.push (.active c) with mode := .dollar })
  else if c = 96 then
    let l := l.push (.active c)
    ([], if inner = some .backquotes then l.leave else l.enter .backquotes)
  else if c = 34 then ([], if inner = some .quotes then l.leave else l.begin.enter .quotes)
  else if c = 125 ∧ inner = some .braces then ([], (l.push (.bare c)).leave)
  else if inQuotes l.nestings then ([], l.push (.quoted c))
  else if c = 39 then ([], { l.begin with mode := .single })
  else if c = 41 ∧ inner = some .command then ([], (l.push (.bare c)).leave)
  else if c = 40 ∧ inner = some .command then ([], (l.push (.bare c)).enter .command)
  else if inner.isSome then ([], l.push (.bare c))
  else stepOutside l c

def stepWord (l : Lexer) (c : UInt8) : List Token × Lexer :=
  match l.mode with
  | .plain => stepPlain l c
  | .single => ([], if c = 39 then { l with mode := .plain } else l.push (.quoted c))
  | .escaped => ([], l.escape c)
  | .dollar =>
    let l := { l with mode := .plain }
    if c = 123 then ([], (l.push (.bare c)).enter .braces)
    else if c = 40 then ([], (l.push (.bare c)).enter .command)
    else stepPlain l c
  | .comment => ([], if c = 10 then { operator := [c] } else l)

/-- An operator takes in every character it can be continued with. -/
def step (l : Lexer) (c : UInt8) : List Token × Lexer :=
  if l.operator.isEmpty then stepWord l c
  else if longOperators.contains (l.operator ++ [c]) then ([], { l with operator := l.operator ++ [c] })
  else
    let next := stepWord { l with operator := [] } c
    (.operator l.operator :: next.1, next.2)

def run : Lexer → Bytes → List Token × Lexer
  | l, [] => ([], l)
  | l, c :: rest =>
    let next := step l c
    let others := run next.2 rest
    (next.1 ++ others.1, others.2)

/-- What is read last, unless the text ends inside a quotation or an expansion. -/
def Lexer.finish (l : Lexer) : Option (List Token) :=
  if !l.nestings.isEmpty then none
  else if l.mode = .single ∨ l.mode = .escaped then none
  else some ((if l.operator.isEmpty then [] else [.operator l.operator]) ++ l.finished)

/-- The tokens of a text, which ends at its first NUL. -/
def tokens (text : Bytes) : Option (List Token) :=
  let read := run {} (text.takeWhile (· != 0))
  read.2.finish.map (read.1 ++ ·)

/-- The single field of a word that nothing is left to expand, split or match in. -/
def literalValue : Token → Option Bytes
  | .operator _ => none
  | .word pieces => pieces.mapM fun piece =>
    match piece with
    | .quoted c => some c
    | .bare _ => none
    | .active _ => none

/-- Single quotation marks around a value, each of its own taken out of them and escaped. -/
def singleQuote (value : Bytes) : Bytes :=
  39 :: (value.flatMap fun c => if c = 39 then [39, 92, 39, 39] else [c]) ++ [39]

example : tokens (lit "cd -- 'a b' && \"$X\"") = some [.word [.bare 99, .bare 100],
    .word [.bare 45, .bare 45], .word [.quoted 97, .quoted 32, .quoted 98], .operator (lit "&&"),
    .word [.active 36, .quoted 88]] := by decide

variable {l : Lexer} {value front back : Bytes} {ts : List Token}

theorem run_append : run l (front ++ back) =
    ((run l front).1 ++ (run (run l front).2 back).1, (run (run l front).2 back).2) := by
  induction front generalizing l with
  | nil => rfl
  | cons c front ih =>
    rw [List.cons_append, run, run, ih, List.append_assoc]

/-- A text that is read from the beginning of a token to the beginning of another. -/
def Closed (text : Bytes) : Prop := (run {} text).2 = {}

instance (text : Bytes) : Decidable (Closed text) := inferInstanceAs (Decidable (_ = _))

theorem Closed.append (first : Closed front) (second : Closed back) : Closed (front ++ back) := by
  simp only [Closed] at first second
  rw [Closed, run_append, first, second]

theorem Closed.flatten {texts : List Bytes} (all : ∀ text ∈ texts, Closed text) :
    Closed texts.flatten := by
  induction texts with
  | nil => rfl
  | cons text texts ih =>
    rw [List.flatten_cons]
    exact (all text (by simp)).append (ih fun other member => all other (by simp [member]))

/-- Inside a word, with nothing else begun. -/
def inWord (pieces : List Piece) : Lexer := { word := some pieces }

/-- Between the marks of a quotation every character is kept, and one mark written as four
characters is read as one quoted mark. -/
theorem run_quoted (pieces : List Piece) :
    run { mode := .single, word := some pieces }
        ((value.flatMap fun c => if c = 39 then [39, 92, 39, 39] else [c]) ++ [39]) =
      ([], inWord (pieces ++ value.map .quoted)) := by
  induction value generalizing pieces with
  | nil => simp [run, step, stepWord, inWord]
  | cons c value ih =>
    have ih := ih (pieces ++ [.quoted c])
    rw [List.append_assoc] at ih
    rw [List.flatMap_cons, List.append_assoc]
    by_cases mark : c = 39
    · rw [mark] at ih ⊢
      exact ih
    · have kept : step { mode := .single, word := some pieces } c =
          ([], { mode := .single, word := some (pieces ++ [.quoted c]) }) := by
        simp [step, stepWord, Lexer.push, mark]
      rw [if_neg mark, List.singleton_append, run, kept]
      exact ih

/-- A quoted value adds its characters, all of them quoted, to the word it stands in. -/
theorem run_singleQuote (word : Option (List Piece)) :
    run { word := word } (singleQuote value) =
      ([], inWord (word.getD [] ++ value.map .quoted)) := by
  have opening : step { word := word } 39 =
      ([], { mode := .single, word := some (word.getD []) }) := rfl
  rw [singleQuote, List.cons_append, run, opening, run_quoted]
  rfl

theorem not_mem_singleQuote (noNul : 0 ∉ value) : 0 ∉ singleQuote value := by
  simp only [singleQuote, List.cons_append, List.mem_cons, List.mem_append, List.mem_flatMap]
  rintro (zero | ⟨c, member, zero⟩ | zero)
  · exact absurd zero (by decide)
  · by_cases mark : c = 39
    · rw [if_pos mark] at zero
      exact absurd zero (by decide)
    · rw [if_neg mark, List.mem_singleton] at zero
      exact noNul (zero ▸ member)
  · simp at zero

theorem takeWhile_noNul {text : Bytes} (noNul : 0 ∉ text) : text.takeWhile (· != 0) = text := by
  rw [List.takeWhile_eq_self_iff]
  intro c member
  exact bne_iff_ne.2 fun zero => noNul (zero ▸ member)

@[simp] theorem literalValue_quoted : literalValue (.word (value.map .quoted)) = some value := by
  simp only [literalValue, List.mapM_map]
  induction value with
  | nil => rfl
  | cons c value ih => simp_all [List.mapM_cons]

/-- A quoted value is one word, of quoted characters only. -/
theorem tokens_singleQuote (noNul : 0 ∉ value) :
    tokens (singleQuote value) = some [.word (value.map .quoted)] := by
  have read : run {} (singleQuote value) = ([], inWord (value.map .quoted)) := run_singleQuote none
  rw [tokens, takeWhile_noNul (not_mem_singleQuote noNul), read]
  rfl

end ShellText
