import Mathlib.Data.List.Count
import Mathlib.Data.List.Flatten

/-! Literals between quotation marks, in a language where several characters act as the mark and
two marks in a row stand for one. The alphabet, its marks and those a writer doubles are
parameters. -/
namespace DoubledMarks

/-- Which of two marks in a row the pair stands for. -/
structure PairReading (α : Type) where
  one : α → α → α
  one_either : ∀ a b, one a b = a ∨ one a b = b

structure LiteralRules (α : Type) extends PairReading α where
  isMark : α → Bool

inductive Token (α : Type) where
  | plain (c : α)
  | literal (value : List α)
  | unclosed (value : List α)
deriving DecidableEq, Repr

/-- A mark inside a literal closes it or begins a pair, as the next character tells. -/
inductive Mode (α : Type) where
  | outside
  | inside (value : List α)
  | closing (value : List α) (mark : α)
deriving DecidableEq, Repr

section Scan

variable {α : Type} (rules : LiteralRules α)

/-- The literals of a text, and every character outside them. -/
def scan : Mode α → List α → List (Token α)
  | .outside, [] => []
  | .outside, c :: rest =>
    if rules.isMark c then scan (.inside []) rest else .plain c :: scan .outside rest
  | .inside value, [] => [.unclosed value]
  | .inside value, c :: rest =>
    if rules.isMark c then scan (.closing value c) rest else scan (.inside (value ++ [c])) rest
  | .closing value _, [] => [.literal value]
  | .closing value mark, c :: rest =>
    if rules.isMark c then scan (.inside (value ++ [rules.one mark c])) rest
    else .literal value :: .plain c :: scan .outside rest

def tokens (text : List α) : List (Token α) := scan rules .outside text

/-- A text that does not continue a pair begun in front of it. -/
def Unmarked (text : List α) : Prop := ∀ c ∈ text.head?, rules.isMark c = false

instance (text : List α) : Decidable (Unmarked rules text) := by
  simp only [Unmarked]
  infer_instance

end Scan

/-- A value with some of its characters written twice. -/
def doubleEach {α : Type} (doubled : α → Bool) (value : List α) : List α :=
  value.flatMap fun c => if doubled c then [c, c] else [c]

def quoteWith {α : Type} (mark : α) (doubled : α → Bool) (value : List α) : List α :=
  mark :: doubleEach doubled value ++ [mark]

variable {α : Type} {rules : LiteralRules α} {doubled : α → Bool} {mark : α}
variable {value text rest : List α}

@[simp] theorem doubleEach_nil : doubleEach doubled [] = [] := rfl

@[simp] theorem doubleEach_cons (c : α) : doubleEach doubled (c :: value) =
    (if doubled c then [c, c] else [c]) ++ doubleEach doubled value := rfl

theorem unmarked_cons {c : α} : Unmarked rules (c :: rest) ↔ rules.isMark c = false := by
  simp [Unmarked]

theorem tokens_append_plain (plain : ∀ c ∈ text, rules.isMark c = false) :
    tokens rules (text ++ rest) = text.map .plain ++ tokens rules rest := by
  induction text with
  | nil => rfl
  | cons c text ih =>
    have own : rules.isMark c = false := plain c (by simp)
    have others := ih fun d member => plain d (by simp [member])
    simp only [tokens] at others
    simp only [tokens, List.cons_append, scan, own, Bool.false_eq_true, if_false, others,
      List.map_cons]

theorem one_self (c : α) : rules.one c c = c := (rules.one_either c c).elim id id

theorem scan_close (unmarked : Unmarked rules rest) :
    scan rules (.closing value mark) rest = .literal value :: scan rules .outside rest := by
  cases rest with
  | nil => rfl
  | cons c rest => simp [scan, unmarked_cons.1 unmarked]

/-- Where the writer doubles every mark of the value, the reader arrives at its closing mark with
the whole value read. -/
theorem scan_doubleEach (isMark : rules.isMark mark = true)
    (marks : ∀ c ∈ value, doubled c = rules.isMark c) (unmarked : Unmarked rules rest)
    (before : List α) :
    scan rules (.inside before) (doubleEach doubled value ++ mark :: rest) =
      .literal (before ++ value) :: scan rules .outside rest := by
  induction value generalizing before with
  | nil =>
    rw [doubleEach_nil, List.nil_append, List.append_nil, scan, if_pos isMark]
    exact scan_close unmarked
  | cons c value ih =>
    have own : doubled c = rules.isMark c := marks c (by simp)
    have ih := ih (fun d member => marks d (by simp [member])) (before ++ [c])
    rw [List.append_assoc] at ih
    cases marked : rules.isMark c with
    | true =>
      rw [doubleEach_cons, own, marked, if_pos rfl, List.append_assoc, List.cons_append, scan,
        if_pos marked, List.singleton_append, scan, if_pos marked, one_self]
      exact ih
    | false =>
      rw [doubleEach_cons, own, marked, if_neg (by simp), List.append_assoc,
        List.singleton_append, scan, if_neg (by simp [marked])]
      exact ih

theorem tokens_quoteWith (isMark : rules.isMark mark = true)
    (marks : ∀ c ∈ value, doubled c = rules.isMark c) (unmarked : Unmarked rules rest) :
    tokens rules (quoteWith mark doubled value ++ rest) = .literal value :: tokens rules rest := by
  have read := scan_doubleEach isMark marks unmarked []
  rw [quoteWith, List.append_assoc, tokens, List.cons_append, scan, if_pos isMark,
    List.singleton_append]
  exact read

/-- The characters a literal's value was read from: marks cost two each, others one. -/
structure ReadFrom (rules : LiteralRules α) (value consumed : List α) : Prop where
  marks : consumed.countP rules.isMark = 2 * value.countP rules.isMark
  others : consumed.countP (fun c => !rules.isMark c) = value.countP (fun c => !rules.isMark c)

theorem ReadFrom.nil : ReadFrom rules [] [] := ⟨rfl, rfl⟩

theorem ReadFrom.plain {c : α} {consumed : List α} (own : rules.isMark c = false)
    (read : ReadFrom rules value consumed) : ReadFrom rules (c :: value) (c :: consumed) where
  marks := by simpa [List.countP_cons, own] using read.marks
  others := by simpa [List.countP_cons, own] using read.others

theorem ReadFrom.pair {c d : α} {consumed : List α} (first : rules.isMark c = true)
    (second : rules.isMark d = true) (read : ReadFrom rules value consumed) :
    ReadFrom rules (rules.one c d :: value) (c :: d :: consumed) := by
  have either : rules.isMark (rules.one c d) = true := by
    rcases rules.one_either c d with same | same <;> simp [same, first, second]
  constructor
  · have marks := read.marks
    simp only [List.countP_cons, first, second, either, if_true]
    omega
  · simpa [List.countP_cons, first, second, either] using read.others

/-- A literal ends at a mark no other mark follows. -/
theorem scan_inside_literal : ∀ (text before : List α) {tail : List (Token α)},
    scan rules (.inside before) text = .literal value :: tail →
      ∃ own consumed last after, value = before ++ own ∧ text = consumed ++ last :: after ∧
        rules.isMark last = true ∧ Unmarked rules after ∧ ReadFrom rules own consumed
  | [], _, _, read => by simp [scan] at read
  | c :: rest, before, tail, read => by
    cases marked : rules.isMark c with
    | false =>
      rw [scan, if_neg (by simp [marked])] at read
      obtain ⟨own, consumed, last, after, same, split, isMark, unmarked, from_⟩ :=
        scan_inside_literal rest (before ++ [c]) read
      refine ⟨c :: own, c :: consumed, last, after, ?_, ?_, isMark, unmarked, from_.plain marked⟩
      · rw [same, List.append_assoc, List.singleton_append]
      · rw [split, List.cons_append]
    | true =>
      rw [scan, if_pos marked] at read
      match rest, read with
      | [], read =>
        have same : before = value := by simpa [scan] using congrArg List.head? read
        exact ⟨[], [], c, [], by simp [same], rfl, marked, by simp [Unmarked], .nil⟩
      | d :: more, read =>
        cases pair : rules.isMark d with
        | false =>
          rw [scan, if_neg (by simp [pair])] at read
          have same : before = value := by simpa using congrArg List.head? read
          exact ⟨[], [], c, d :: more, by simp [same], rfl, marked, unmarked_cons.2 pair, .nil⟩
        | true =>
          rw [scan, if_pos pair] at read
          obtain ⟨own, consumed, last, after, same, split, isMark, unmarked, from_⟩ :=
            scan_inside_literal more (before ++ [rules.one c d]) read
          refine ⟨rules.one c d :: own, c :: d :: consumed, last, after, ?_, ?_, isMark, unmarked,
            from_.pair marked pair⟩
          · rw [same, List.append_assoc, List.singleton_append]
          · rw [split, List.cons_append, List.cons_append]

theorem countP_doubleEach_others (marks : ∀ c, doubled c = true → rules.isMark c = true) :
    (doubleEach doubled value).countP (fun c => !rules.isMark c) =
      value.countP (fun c => !rules.isMark c) := by
  induction value with
  | nil => rfl
  | cons c value ih =>
    cases twice : doubled c with
    | false => simp [doubleEach_cons, twice, ih, List.countP_cons]
    | true => simp [doubleEach_cons, twice, marks c twice, ih]

theorem countP_doubleEach_marks (marks : ∀ c, doubled c = true → rules.isMark c = true) :
    (doubleEach doubled value).countP rules.isMark =
      value.countP rules.isMark + value.countP doubled := by
  induction value with
  | nil => rfl
  | cons c value ih =>
    cases twice : doubled c with
    | false => simp [doubleEach_cons, twice, ih, List.countP_cons, Nat.add_right_comm]
    | true =>
      simp only [doubleEach_cons, twice, if_true, List.countP_append, List.countP_cons,
        List.countP_nil, marks c twice, ih]
      omega

/-- Marks the writer leaves single are missing from what the reader needs. -/
theorem doubled_of_countP_le (marks : ∀ c, doubled c = true → rules.isMark c = true)
    (count : value.countP rules.isMark ≤ value.countP doubled) :
    ∀ c ∈ value, doubled c = rules.isMark c := by
  have twice : value.countP doubled ≤ value.countP rules.isMark :=
    List.countP_mono_left fun c _ => marks c
  intro c member
  by_contra differ
  have single : doubled c = false ∧ rules.isMark c = true := by
    cases first : doubled c with
    | false =>
      cases second : rules.isMark c with
      | false => exact absurd (first.trans second.symm) differ
      | true => exact ⟨rfl, rfl⟩
    | true => exact absurd (first.trans (marks c first).symm) differ
  obtain ⟨front, back, rfl⟩ := List.append_of_mem member
  have before : front.countP doubled ≤ front.countP rules.isMark :=
    List.countP_mono_left fun c _ => marks c
  have after : back.countP doubled ≤ back.countP rules.isMark :=
    List.countP_mono_left fun c _ => marks c
  simp only [List.countP_append, List.countP_cons, single.1, single.2, Bool.false_eq_true, if_true,
    if_false] at count
  omega

/-- A single mark shifts the pairing, and what the literal's value then lacks cannot come from
the text behind the closing mark, which no mark begins. -/
theorem doubled_of_head_tokens (isMark : rules.isMark mark = true)
    (marks : ∀ c, doubled c = true → rules.isMark c = true) (unmarked : Unmarked rules rest)
    (read : (tokens rules (quoteWith mark doubled value ++ rest)).head? = some (.literal value)) :
    ∀ c ∈ value, doubled c = rules.isMark c := by
  obtain ⟨tail, read⟩ := List.head?_eq_some_iff.1 read
  rw [quoteWith, List.append_assoc, tokens, List.cons_append, scan, if_pos isMark,
    List.singleton_append] at read
  obtain ⟨own, consumed, last, after, same, split, lastMark, unmarkedAfter, from_⟩ :=
    scan_inside_literal _ [] read
  rw [List.nil_append] at same
  subst same
  apply doubled_of_countP_le marks
  have pairs := from_.marks
  have others := from_.others
  have written : (doubleEach doubled value).countP rules.isMark =
      value.countP rules.isMark + value.countP doubled := countP_doubleEach_marks marks
  have kept : (doubleEach doubled value).countP (fun c => !rules.isMark c) =
      value.countP (fun c => !rules.isMark c) := countP_doubleEach_others marks
  rcases List.append_eq_append_iff.1 split with ⟨extra, rfl, tail⟩ | ⟨extra, front, tail⟩
  · cases extra with
    | nil =>
      rw [List.append_nil] at pairs
      omega
    | cons c extra =>
      rw [List.cons_append, List.cons.injEq] at tail
      obtain ⟨-, tail⟩ := tail
      have none : extra.countP (fun c => !rules.isMark c) = 0 := by
        rw [List.countP_append, List.countP_cons, kept] at others
        omega
      cases extra with
      | nil =>
        rw [List.nil_append] at tail
        rw [tail, unmarked_cons, lastMark] at unmarked
        simp at unmarked
      | cons d extra =>
        rw [tail, List.cons_append, unmarked_cons] at unmarked
        simp [unmarked] at none
  · rw [front, List.countP_append] at written
    omega

/-- A quoted value is the literal in front of a text exactly where every mark of it is doubled. -/
theorem tokens_quoteWith_iff (isMark : rules.isMark mark = true)
    (marks : ∀ c, doubled c = true → rules.isMark c = true) (unmarked : Unmarked rules rest)
    {more : List (Token α)} :
    tokens rules (quoteWith mark doubled value ++ rest) = .literal value :: more ↔
      (∀ c ∈ value, doubled c = rules.isMark c) ∧ tokens rules rest = more := by
  constructor
  · intro read
    have all := doubled_of_head_tokens isMark marks unmarked (by rw [read]; rfl)
    rw [tokens_quoteWith isMark all unmarked, List.cons.injEq] at read
    exact ⟨all, read.2⟩
  · intro both
    rw [tokens_quoteWith isMark both.1 unmarked, both.2]

end DoubledMarks
