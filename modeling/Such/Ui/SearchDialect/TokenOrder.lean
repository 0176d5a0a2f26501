import Such.Ui.SearchDialect.Tokens

/-! The order of tokens matters within the text and within the dates only. Each token is
classified by itself, and the other kinds end up in a flag or in a set. -/
namespace Such.SearchDialect
open ByteText CivilTime

section Order
variable (zone : Zone) (dialect : PlatformDialect) (now : Int) (observed : List Bytes)

/-- The tokens taken for dates, as they are written. -/
def dateTokens (tokens : List Bytes) : List Bytes :=
  tokens.filter fun token => (classifyToken zone dialect observed token).dateBody?.isSome

theorem tokenDates_eq (tokens : List Bytes) : tokenDates zone dialect observed tokens =
    tokenDates zone dialect observed (dateTokens zone dialect observed tokens) := by
  induction tokens with
  | nil => rfl
  | cons token tokens ih =>
    rw [dateTokens, List.filter_cons, ← dateTokens]
    cases cls : (classifyToken zone dialect observed token).dateBody? with
    | none => simp [cls, ih]
    | some body => simp [cls, ih]

variable {zone dialect now observed} {tokens others : List Bytes}

/-- What a permutation of tokens keeps when it keeps the order of the texts and of the dates. -/
theorem tokenFilter_perm (perm : others.Perm tokens)
    (texts : tokenTexts zone dialect observed others = tokenTexts zone dialect observed tokens)
    (dates : dateTokens zone dialect observed others = dateTokens zone dialect observed tokens) :
    tokenFilter zone dialect now observed others =
      { tokenFilter zone dialect now observed tokens with
        extensions := (tokenFilter zone dialect now observed others).extensions } ∧
    ∀ ext, ext ∈ (tokenFilter zone dialect now observed others).extensions ↔
      ext ∈ (tokenFilter zone dialect now observed tokens).extensions := by
  constructor
  · have bodies : tokenDates zone dialect observed others = tokenDates zone dialect observed tokens := by
      rw [tokenDates_eq, dates, ← tokenDates_eq]
    have pin : tokensPin zone dialect observed others = tokensPin zone dialect observed tokens :=
      perm.any_eq
    have inside : tokensInside zone dialect observed others =
        tokensInside zone dialect observed tokens := perm.any_eq
    simp only [tokenFilter, texts, bodies, pin, inside]
  · intro ext
    have exts : (tokenExtensions zone dialect observed others).Perm
        (tokenExtensions zone dialect observed tokens) := perm.filterMap _
    simp only [tokenFilter, mem_foldl_addExtension, exts.mem_iff]

end Order

theorem noPair_of_fieldsFrom {a b : UInt8} {sep : UInt8 → Bool} (solidA : sep a = false)
    (solidB : sep b = false) {current v : Bytes}
    (free : ∀ w ∈ fieldsFrom sep current v, NoPair a b w) : NoPair a b (current ++ v) := by
  induction v generalizing current with
  | nil =>
    cases current with
    | nil => simp
    | cons c current => simpa [fieldsFrom] using free
  | cons c v ih =>
    cases mark : sep c with
    | false =>
      have rest := @ih (current ++ [c]) (by simpa [fieldsFrom, mark] using free)
      simpa using rest
    | true =>
      have front : NoPair a b current := by
        cases current with
        | nil => simp
        | cons d current => exact free _ (by simp [fieldsFrom, mark])
      have back : NoPair a b v := by
        refine @ih [] fun w member => free w ?_
        cases current <;> simp [fieldsFrom, mark, member]
      exact noPair_append_cons front back (by rintro rfl; simp [mark] at solidA)
        (by rintro rfl; simp [mark] at solidB)

/-- A text has no pair of solid characters that none of its words has. -/
theorem noPair_of_words {a b : UInt8} (solidA : isSpace a = false) (solidB : isSpace b = false)
    {v : Bytes} (free : ∀ w ∈ words v, NoPair a b w) : NoPair a b v :=
  @noPair_of_fieldsFrom a b isSpace solidA solidB [] v free

/-- Permuting the tokens of a query without stages changes nothing but the order in which its
extensions are listed, as long as the texts and the dates keep their orders. -/
theorem parseSearchQuery_perm (zone : Zone) (dialect : PlatformDialect) (now : Int)
    (observed : List Bytes) {query other : Bytes} (flat : NoPair 47 59 query)
    (perm : (words other).Perm (words query))
    (texts : tokenTexts zone dialect observed (words other) =
      tokenTexts zone dialect observed (words query))
    (dates : dateTokens zone dialect observed (words other) =
      dateTokens zone dialect observed (words query)) :
    parseSearchQuery zone dialect now observed other =
      { parseSearchQuery zone dialect now observed query with
        extensions := (parseSearchQuery zone dialect now observed other).extensions } ∧
    ∀ ext, ext ∈ (parseSearchQuery zone dialect now observed other).extensions ↔
      ext ∈ (parseSearchQuery zone dialect now observed query).extensions := by
  have free : NoPair 47 59 other := by
    apply noPair_of_words (by decide) (by decide)
    intro token member
    exact flat.mono (infix_words (perm.mem_iff.1 member))
  rw [parseSearchQuery_of_noPair zone dialect now observed flat,
    parseSearchQuery_of_noPair zone dialect now observed free]
  exact tokenFilter_perm perm texts dates

theorem parseSearchQuery_perm_pin :
    parseSearchQuery .utc .windows 1800000000 [] (lit "/pdf plan /2026 /txt /pin") =
      { parseSearchQuery .utc .windows 1800000000 [] (lit "/pin /txt plan /pdf /2026") with
        extensions := [lit "pdf", lit "txt"] } := by
  have same := (@parseSearchQuery_perm .utc .windows 1800000000 []
    (lit "/pin /txt plan /pdf /2026") (lit "/pdf plan /2026 /txt /pin")
    (by decide) (by decide) (by decide) (by decide)).1
  have exts : (parseSearchQuery .utc .windows 1800000000 [] (lit "/pdf plan /2026 /txt /pin")).extensions =
      [lit "pdf", lit "txt"] := by decide
  rwa [exts] at same

end Such.SearchDialect
