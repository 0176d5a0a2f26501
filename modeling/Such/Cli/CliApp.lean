import Such.Base.ByteText

/-! The interactive command line: how one typed line becomes arguments. -/
namespace Such.CliApp
open ByteText

/-- An argument is kept when a separator or the end of the line finds it non-empty. -/
def flush (current : Bytes) : List Bytes := if current.isEmpty then [] else [current]

/-- Reads the rest of a line inside the quotation mark `quote`, or outside any. Inside, a
backslash before the mark yields the mark itself. -/
def splitFrom : Option UInt8 → Bytes → Bytes → List Bytes
  | _, current, [] => flush current
  | some quote, current, [c] =>
    if c = quote then splitFrom none current [] else splitFrom (some quote) (current ++ [c]) []
  | some quote, current, c :: next :: rest =>
    if c = quote then splitFrom none current (next :: rest)
    else if c = 92 ∧ next = quote then splitFrom (some quote) (current ++ [next]) rest
    else splitFrom (some quote) (current ++ [c]) (next :: rest)
  | none, current, c :: rest =>
    if c = 34 ∨ c = 39 then splitFrom (some c) current rest
    else if isSpace c then flush current ++ splitFrom none [] rest
    else splitFrom none (current ++ [c]) rest

def splitInteractiveCommand (line : Bytes) : List Bytes := splitFrom none [] line

/-- An argument between double quotation marks. -/
def quoted (argument : Bytes) : Bytes := 34 :: argument ++ [34]

section Marks

variable {mark : UInt8} {current rest : Bytes}

theorem splitFrom_close :
    splitFrom (some mark) current (mark :: rest) = splitFrom none current rest := by
  cases rest <;> simp [splitFrom]

theorem splitFrom_open : splitFrom none current (34 :: rest) = splitFrom (some 34) current rest := by
  simp [splitFrom]

theorem splitFrom_blank : splitFrom none current (32 :: rest) = flush current ++ splitFrom none [] rest := by
  simp [splitFrom, isSpace]

theorem splitFrom_escape (other : mark ≠ 92) :
    splitFrom (some mark) current (92 :: mark :: rest) =
      splitFrom (some mark) (current ++ [mark]) rest := by
  simp [splitFrom, other.symm]

theorem splitFrom_inside {c : UInt8} (other : c ≠ mark)
    (plain : ¬(c = 92 ∧ rest.head? = some mark)) :
    splitFrom (some mark) current (c :: rest) = splitFrom (some mark) (current ++ [c]) rest := by
  cases rest with
  | nil => simp [splitFrom, other]
  | cons next tail =>
    have apart : ¬(c = 92 ∧ next = mark) := by simpa using plain
    rw [splitFrom, if_neg other, if_neg apart]

/-- A run without the mark is read as it stands, unless its last byte is a backslash that the
mark follows. -/
theorem splitFrom_run {body : Bytes} (free : mark ∉ body)
    (apart : ¬(body.getLast? = some 92 ∧ rest.head? = some mark)) :
    splitFrom (some mark) current (body ++ rest) = splitFrom (some mark) (current ++ body) rest := by
  induction body generalizing current with
  | nil => simp
  | cons c body ih =>
    obtain ⟨other, free⟩ : ¬mark = c ∧ mark ∉ body := by simpa using free
    have plain : ¬(c = 92 ∧ (body ++ rest).head? = some mark) := by
      rintro ⟨rfl, next⟩
      cases body with
      | nil => exact apart ⟨rfl, next⟩
      | cons d body =>
        have same : d = mark := by simpa using next
        exact free (by simp [same])
    have later : ¬(body.getLast? = some 92 ∧ rest.head? = some mark) := by
      rintro ⟨last, next⟩
      have filled : body ≠ [] := by
        rintro rfl
        simp at last
      exact apart ⟨by rw [List.getLast?_cons_of_ne_nil filled, last], next⟩
    rw [List.cons_append, splitFrom_inside (Ne.symm other) plain, ih free later]
    simp

/-- Whatever follows, the argument being read only grows. -/
theorem splitFrom_grows (quote : Option UInt8) {current : Bytes} (filled : current ≠ [])
    (line : Bytes) : ∃ more later, splitFrom quote current line = (current ++ more) :: later := by
  have flushed : ∀ current : Bytes, current ≠ [] → flush current = [current] := by
    intro current filled
    simp [flush, filled]
  have pushed : ∀ {current : Bytes} {c : UInt8} {out : List Bytes},
      (∃ more later, out = (current ++ [c] ++ more) :: later) →
        ∃ more later, out = (current ++ more) :: later := by
    rintro current c out ⟨more, later, rfl⟩
    exact ⟨c :: more, later, by simp⟩
  fun_induction splitFrom quote current line with
  | case1 quote current => exact ⟨[], [], by simpa using flushed current filled⟩
  | case2 current c ih => exact ih filled
  | case3 mark current c other ih => exact pushed (ih (by simp))
  | case4 current c next rest ih => exact ih filled
  | case5 mark current c next rest other escape ih => exact pushed (ih (by simp))
  | case6 mark current c next rest other plain ih => exact pushed (ih (by simp))
  | case7 current c rest opens ih => exact ih filled
  | case8 current c rest plain blank ih =>
    exact ⟨[], splitFrom none [] rest, by rw [flushed current filled]; simp⟩
  | case9 current c rest plain solid ih => exact pushed (ih (by simp))

end Marks

section Quoted

variable {argument rest : Bytes} (free : 34 ∉ argument)
include free

theorem splitFrom_quoted (clean : argument.getLast? ≠ some 92) :
    splitFrom none [] (quoted argument ++ rest) = splitFrom none argument rest := by
  have shape : quoted argument ++ rest = 34 :: (argument ++ 34 :: rest) := by simp [quoted]
  rw [shape, splitFrom_open, splitFrom_run free (fun both => clean both.1), List.nil_append,
    splitFrom_close]

/-- A final backslash turns the closing mark into a byte of the argument. -/
theorem splitFrom_runaway (last : argument.getLast? = some 92) :
    ∃ word later, splitFrom none [] (quoted argument ++ rest) = word :: later ∧ 34 ∈ word := by
  obtain ⟨body, rfl⟩ := List.getLast?_eq_some_iff.mp last
  have shape : quoted (body ++ [92]) ++ rest = 34 :: (body ++ 92 :: 34 :: rest) := by simp [quoted]
  have plain : 34 ∉ body := fun member => free (by simp [member])
  have filled : body ++ [34] ≠ [] := by simp
  obtain ⟨more, later, read⟩ := splitFrom_grows (some 34) filled rest
  refine ⟨body ++ [34] ++ more, later, ?_, ?_⟩
  · rw [shape, splitFrom_open, splitFrom_run plain (by simp), List.nil_append,
      splitFrom_escape (by decide), read]
  · simp

end Quoted

/-- Arguments put between double marks and joined by single spaces are read back as they were
exactly if none of them ends in a backslash: a folder written `C:\\Docs\\` swallows its closing
mark, and with it everything up to the next one. Apostrophes, blanks and inner backslashes are
ordinary bytes between the marks. -/
theorem splitInteractiveCommand_quoted_iff {arguments : List Bytes}
    (filled : ∀ argument ∈ arguments, argument ≠ []) (free : ∀ argument ∈ arguments, 34 ∉ argument) :
    splitInteractiveCommand (joinWords (arguments.map quoted)) = arguments ↔
      ∀ argument ∈ arguments, argument.getLast? ≠ some 92 := by
  induction arguments with
  | nil => simp [splitInteractiveCommand, joinWords, joinWith, splitFrom, flush]
  | cons argument arguments ih =>
    have own := free argument (by simp)
    have kept : flush argument = [argument] := by simp [flush, filled argument (by simp)]
    have ih := ih (fun a member => filled a (by simp [member])) fun a member => free a (by simp [member])
    obtain ⟨rest, line, reads⟩ : ∃ rest, joinWords ((argument :: arguments).map quoted) =
        quoted argument ++ rest ∧ splitFrom none argument rest =
          argument :: splitInteractiveCommand (joinWords (arguments.map quoted)) := by
      cases arguments with
      | nil => exact ⟨[], by simp [joinWords, joinWith], kept⟩
      | cons next arguments =>
        refine ⟨32 :: joinWords ((next :: arguments).map quoted), rfl, ?_⟩
        rw [splitFrom_blank, kept]
        rfl
    rw [splitInteractiveCommand, line, List.forall_mem_cons]
    by_cases last : argument.getLast? = some 92
    · obtain ⟨word, later, read, marked⟩ := @splitFrom_runaway _ rest own last
      rw [read]
      constructor
      · intro same
        exact absurd ((List.cons.inj same).1 ▸ marked) own
      · intro clean
        exact absurd last clean.1
    · rw [splitFrom_quoted own last, reads, List.cons_inj_right, ih]
      exact ⟨fun clean => ⟨last, clean⟩, fun clean => clean.2⟩

theorem splitInteractiveCommand_quoted_folder :
    ¬splitInteractiveCommand (joinWords ([lit "add", lit "C:\\Docs\\", lit "D:"].map quoted)) =
      [lit "add", lit "C:\\Docs\\", lit "D:"] := by
  decide

theorem splitInteractiveCommand_quoted_file :
    splitInteractiveCommand (joinWords ([lit "add", lit "C:\\My Docs"].map quoted)) =
      [lit "add", lit "C:\\My Docs"] :=
  (splitInteractiveCommand_quoted_iff (by decide +kernel) (by decide +kernel)).mpr (by decide +kernel)

end Such.CliApp
