import Mathlib.Data.List.Infix
import Mathlib.Data.List.DropRight
import Mathlib.Data.Nat.Digits.Defs

/-! Byte strings under the C locale: character classes, case folding, trimming,
whitespace-separated words, splitting at a two-byte separator and decimal
numerals. Every function is total on arbitrary bytes; no encoding is assumed. -/
namespace ByteText

abbrev Bytes := List UInt8

/-- The bytes of a narrow string literal. -/
def lit (s : String) : Bytes := s.toUTF8.data.toList

def isSpace (b : UInt8) : Bool := b == 32 || (9 ≤ b && b ≤ 13)

def isDigit (b : UInt8) : Bool := 48 ≤ b && b ≤ 57

def isUpper (b : UInt8) : Bool := 65 ≤ b && b ≤ 90

def isAlnum (b : UInt8) : Bool := isDigit b || isUpper b || (97 ≤ b && b ≤ 122)

def toLower (b : UInt8) : UInt8 := if isUpper b then b + 32 else b

def lower (v : Bytes) : Bytes := v.map toLower

def trim (v : Bytes) : Bytes := (v.dropWhile isSpace).rdropWhile isSpace

def allDigits (v : Bytes) : Bool := !v.isEmpty && v.all isDigit

def substr (v : Bytes) (pos count : Nat) : Bytes := (v.drop pos).take count

def startsWith (v first : Bytes) : Bool := first.isPrefixOf v

/-- A byte string occurs inside another one. -/
def occursIn (needle hay : Bytes) : Bool := decide (needle <:+: hay)

/-- The bytes a C-string reader sees: everything before the first NUL. -/
def cstr (v : Bytes) : Bytes := v.takeWhile (· != 0)

section Stops

theorem takeWhile_append_stop {keep : UInt8 → Bool} {s : UInt8} (stop : keep s = false) (v w : Bytes) :
    (v ++ s :: w).takeWhile keep = v.takeWhile keep := by
  induction v with
  | nil => simp [stop]
  | cons b v ih => simp [List.takeWhile_cons, ih]

theorem dropWhile_append_stop {keep : UInt8 → Bool} {s : UInt8} (stop : keep s = false) (v w : Bytes) :
    (v ++ s :: w).dropWhile keep = v.dropWhile keep ++ s :: w := by
  induction v with
  | nil => simp [stop]
  | cons b v ih =>
    simp only [List.cons_append, List.dropWhile_cons, ih]
    split <;> simp

theorem rtakeWhile_append_stop {keep : UInt8 → Bool} {s : UInt8} (stop : keep s = false) (v w : Bytes) :
    (v ++ s :: w).rtakeWhile keep = w.rtakeWhile keep := by
  simp [List.rtakeWhile, takeWhile_append_stop stop]

theorem rdropWhile_append_stop {keep : UInt8 → Bool} {s : UInt8} (stop : keep s = false) (v w : Bytes) :
    (v ++ s :: w).rdropWhile keep = v ++ s :: w.rdropWhile keep := by
  simp [List.rdropWhile, dropWhile_append_stop stop]

theorem rdropWhile_append_of_all {keep : UInt8 → Bool} (v : Bytes) {w : Bytes}
    (all : ∀ b ∈ w, keep b = true) : (v ++ w).rdropWhile keep = v.rdropWhile keep := by
  rw [List.rdropWhile, List.reverse_append, List.dropWhile_append_of_pos (by simpa using all)]
  rfl

/-- The last run of kept bytes is what stands behind the last other byte. -/
theorem rtakeWhile_eq_iff {keep : UInt8 → Bool} {v w : Bytes} : v.rtakeWhile keep = w ↔
    ∃ front, v = front ++ w ∧ (∀ b ∈ front.getLast?, keep b = false) ∧ ∀ b ∈ w, keep b = true := by
  constructor
  · rintro rfl
    refine ⟨v.rdropWhile keep, List.rdropWhile_append_rtakeWhile.symm, ?_,
      fun b member => List.mem_rtakeWhile_imp member⟩
    intro b last
    have filled : v.rdropWhile keep ≠ [] := by
      intro empty
      rw [empty] at last
      cases last
    rw [Option.mem_def, List.getLast?_eq_some_getLast filled, Option.some.injEq] at last
    have stops := List.rdropWhile_last_not keep v filled
    rwa [last, Bool.not_eq_true] at stops
  · rintro ⟨front, rfl, stops, kept⟩
    have whole : w.rtakeWhile keep = w := List.rtakeWhile_eq_self_iff.mpr kept
    rcases List.eq_nil_or_concat' front with rfl | ⟨init, s, rfl⟩
    · exact whole
    · have stop : keep s = false := stops s (by simp)
      rw [List.append_assoc, List.singleton_append, rtakeWhile_append_stop stop, whole]

theorem cstr_of_notMem {v : Bytes} (free : 0 ∉ v) : cstr v = v :=
  List.takeWhile_eq_self_iff.mpr fun b member => by
    simpa using fun same : b = 0 => free (same ▸ member)

theorem notMem_cstr (v : Bytes) : (0 : UInt8) ∉ cstr v := by
  intro member
  have := List.mem_takeWhile_imp member
  simp at this

theorem cstr_append_of_mem {v : Bytes} (ends : 0 ∈ v) (w : Bytes) : cstr (v ++ w) = cstr v := by
  obtain ⟨first, last, rfl⟩ := List.append_of_mem ends
  rw [List.append_assoc, List.cons_append, cstr, cstr, takeWhile_append_stop (by decide),
    takeWhile_append_stop (by decide)]

theorem cstr_cons (b : UInt8) (v : Bytes) : cstr (b :: v) = if b = 0 then [] else b :: cstr v := by
  by_cases zero : b = 0 <;> simp [cstr, zero]

theorem cstr_append_of_notMem {v : Bytes} (free : 0 ∉ v) (w : Bytes) : cstr (v ++ w) = v ++ cstr w := by
  induction v with
  | nil => rfl
  | cons b v ih =>
    have head : b ≠ 0 := fun same => free (by simp [same])
    have tail := ih fun member => free (by simp [member])
    simp only [cstr, List.cons_append] at tail ⊢
    simp [head, tail]

end Stops

section Case

theorem toLower_toNat (b : UInt8) :
    (toLower b).toNat = if 65 ≤ b.toNat ∧ b.toNat ≤ 90 then b.toNat + 32 else b.toNat := by
  simp only [toLower, isUpper, Bool.and_eq_true, decide_eq_true_eq, UInt8.le_iff_toNat_le]
  change (if 65 ≤ b.toNat ∧ b.toNat ≤ 90 then b + 32 else b).toNat = _
  split
  · simp only [UInt8.toNat_add, UInt8.reduceToNat]
    omega
  · rfl

theorem isDigit_iff (b : UInt8) : isDigit b = true ↔ 48 ≤ b.toNat ∧ b.toNat ≤ 57 := by
  simp [isDigit, UInt8.le_iff_toNat_le]

theorem isAlnum_iff (b : UInt8) : isAlnum b = true ↔
    (48 ≤ b.toNat ∧ b.toNat ≤ 57) ∨ (65 ≤ b.toNat ∧ b.toNat ≤ 90) ∨
      (97 ≤ b.toNat ∧ b.toNat ≤ 122) := by
  simp [isAlnum, isDigit, isUpper, UInt8.le_iff_toNat_le, or_assoc]

theorem isSpace_iff (b : UInt8) : isSpace b = true ↔
    b.toNat = 32 ∨ (9 ≤ b.toNat ∧ b.toNat ≤ 13) := by
  simp [isSpace, UInt8.le_iff_toNat_le, ← UInt8.toNat_inj]

@[simp] theorem toLower_toLower (b : UInt8) : toLower (toLower b) = toLower b := by
  apply UInt8.toNat_inj.mp
  simp only [toLower_toNat]
  split_ifs <;> omega

@[simp] theorem isDigit_toLower (b : UInt8) : isDigit (toLower b) = isDigit b := by
  rw [Bool.eq_iff_iff, isDigit_iff, isDigit_iff, toLower_toNat]
  split_ifs <;> omega

@[simp] theorem isAlnum_toLower (b : UInt8) : isAlnum (toLower b) = isAlnum b := by
  rw [Bool.eq_iff_iff, isAlnum_iff, isAlnum_iff, toLower_toNat]
  split_ifs <;> omega

/-- A byte outside the letters folds only to itself. -/
theorem toLower_eq_iff {b c : UInt8} (outside : c.toNat < 65 ∨ (90 < c.toNat ∧ c.toNat < 97) ∨
    122 < c.toNat) : toLower b = c ↔ b = c := by
  rw [← UInt8.toNat_inj, ← UInt8.toNat_inj, toLower_toNat]
  split_ifs <;> omega

theorem toLower_of_isDigit {b : UInt8} (digit : isDigit b = true) : toLower b = b := by
  rw [isDigit_iff] at digit
  apply UInt8.toNat_inj.mp
  rw [toLower_toNat]
  split_ifs <;> omega

@[simp] theorem lower_lower (v : Bytes) : lower (lower v) = lower v := by
  simp [lower, Function.comp_def]

@[simp] theorem length_lower (v : Bytes) : (lower v).length = v.length := by simp [lower]

@[simp] theorem lower_eq_nil (v : Bytes) : lower v = [] ↔ v = [] := by simp [lower]

@[simp] theorem lower_append (v w : Bytes) : lower (v ++ w) = lower v ++ lower w := by
  simp [lower]

theorem lower_eq_self {v : Bytes} (fixed : ∀ b ∈ v, toLower b = b) : lower v = v := by
  simpa [lower] using List.map_congr_left fixed

@[simp] theorem allDigits_lower (v : Bytes) : allDigits (lower v) = allDigits v := by
  simp [allDigits, lower, List.all_map, Function.comp_def]

theorem lower_of_allDigits {v : Bytes} (digits : allDigits v = true) : lower v = v := by
  simp only [allDigits, Bool.and_eq_true, List.all_eq_true] at digits
  exact lower_eq_self fun b member => toLower_of_isDigit (digits.2 b member)

theorem allDigits_iff {v : Bytes} : allDigits v = true ↔ v ≠ [] ∧ ∀ b ∈ v, isDigit b = true := by
  simp [allDigits]

end Case

section Fields
variable (sep : UInt8 → Bool)

def fieldsFrom (current : Bytes) : Bytes → List Bytes
  | [] => if current.isEmpty then [] else [current]
  | b :: rest =>
    if sep b then
      if current.isEmpty then fieldsFrom [] rest else current :: fieldsFrom [] rest
    else fieldsFrom (current ++ [b]) rest

/-- The non-empty fields between separator bytes. -/
def fields (v : Bytes) : List Bytes := fieldsFrom sep [] v

/-- A non-empty run of bytes without a separator. -/
def IsField (v : Bytes) : Prop := v ≠ [] ∧ ∀ b ∈ v, sep b = false

/-- Joins with one byte between neighbours. -/
def joinWith (s : UInt8) : List Bytes → Bytes
  | [] => []
  | [w] => w
  | w :: next :: rest => w ++ s :: joinWith s (next :: rest)

variable {sep}

theorem joinWith_append {s : UInt8} {ts us : List Bytes} (left : ts ≠ []) (right : us ≠ []) :
    joinWith s (ts ++ us) = joinWith s ts ++ s :: joinWith s us := by
  induction ts with
  | nil => exact absurd rfl left
  | cons t ts ih =>
    cases ts with
    | nil =>
      obtain ⟨u, us, rfl⟩ := List.exists_cons_of_ne_nil right
      rfl
    | cons next ts =>
      change t ++ s :: joinWith s (next :: ts ++ us) = t ++ s :: joinWith s (next :: ts) ++ _
      rw [ih (by simp), List.append_assoc, List.cons_append]

theorem joinWith_eq_nil {s : UInt8} {ts : List Bytes} (filled : ∀ t ∈ ts, t ≠ []) :
    joinWith s ts = [] ↔ ts = [] := by
  constructor
  · intro empty
    cases ts with
    | nil => rfl
    | cons t ts =>
      cases ts with
      | nil => exact absurd empty (filled t (by simp))
      | cons next ts => exact absurd (List.append_eq_nil_iff.mp empty).2 (by simp)
  · rintro rfl
    rfl

@[simp] theorem fields_nil : fields sep [] = [] := rfl

theorem fieldsFrom_append_sep (current first rest : Bytes) {s : UInt8} (mark : sep s = true) :
    fieldsFrom sep current (first ++ s :: rest) =
      fieldsFrom sep current first ++ fields sep rest := by
  induction first generalizing current with
  | nil =>
    simp only [List.nil_append, fieldsFrom, mark, if_true]
    split <;> simp [fields]
  | cons b first ih =>
    simp only [List.cons_append, fieldsFrom]
    split
    · split <;> simp [ih]
    · exact ih _

theorem fields_append_sep (first rest : Bytes) {s : UInt8} (mark : sep s = true) :
    fields sep (first ++ s :: rest) = fields sep first ++ fields sep rest :=
  fieldsFrom_append_sep [] first rest mark

theorem fieldsFrom_plain (current v : Bytes) (plain : ∀ b ∈ v, sep b = false) :
    fieldsFrom sep current v = if (current ++ v).isEmpty then [] else [current ++ v] := by
  induction v generalizing current with
  | nil => simp [fieldsFrom]
  | cons b v ih =>
    have head : sep b = false := plain b (by simp)
    simp only [fieldsFrom, head, Bool.false_eq_true, if_false]
    rw [ih _ (fun c member => plain c (by simp [member]))]
    simp

theorem fields_of_isField {v : Bytes} (field : IsField sep v) : fields sep v = [v] := by
  rw [fields, fieldsFrom_plain [] v field.2]
  simp [field.1]

variable (sep) in
/-- Where a field stands: separators or the ends of the text are around it. -/
structure FieldAt (v front field tail : Bytes) : Prop where
  split : v = front ++ (field ++ tail)
  isField : IsField sep field
  opens : ∀ b ∈ front.getLast?, sep b = true
  closes : ∀ b ∈ tail.head?, sep b = true

/-- A field stands in a longer text where it stands in what follows a separator. -/
theorem FieldAt.behind {v front field tail : Bytes} (stands : FieldAt sep v front field tail)
    {s : UInt8} (mark : sep s = true) (before : Bytes) :
    FieldAt sep (before ++ s :: v) (before ++ s :: front) field tail where
  split := by rw [stands.split, List.append_assoc, List.cons_append]
  isField := stands.isField
  opens := by
    intro b last
    rcases List.eq_nil_or_concat' front with rfl | ⟨init, c, rfl⟩
    · obtain rfl : s = b := by simpa using last
      exact mark
    · rw [← List.cons_append, ← List.append_assoc, List.getLast?_concat] at last
      exact stands.opens b (by simpa using last)
  closes := stands.closes

theorem fieldAt_of_mem_fieldsFrom {current v w : Bytes} (plain : ∀ b ∈ current, sep b = false)
    (member : w ∈ fieldsFrom sep current v) : ∃ front tail, FieldAt sep (current ++ v) front w tail := by
  induction v generalizing current with
  | nil =>
    simp only [fieldsFrom] at member
    split at member
    · cases member
    · rename_i filled
      obtain rfl := List.mem_singleton.mp member
      exact ⟨[], [], rfl, ⟨by simpa using filled, plain⟩, by simp, by simp⟩
  | cons b v ih =>
    have later : sep b = true → w ∈ fieldsFrom sep [] v →
        ∃ front tail, FieldAt sep (current ++ b :: v) front w tail := by
      intro mark member
      obtain ⟨front, tail, stands⟩ := ih (List.forall_mem_nil _) member
      exact ⟨_, tail, stands.behind mark current⟩
    simp only [fieldsFrom] at member
    split at member
    · rename_i mark
      split at member
      · exact later mark member
      · rename_i filled
        rcases List.mem_cons.mp member with rfl | member
        · exact ⟨[], b :: v, rfl, ⟨by simpa using filled, plain⟩, by simp, by simpa using mark⟩
        · exact later mark member
    · rename_i solid
      have goesOn : ∀ c ∈ current ++ [b], sep c = false := by
        simpa [or_imp, forall_and] using ⟨plain, Bool.eq_false_of_not_eq_true solid⟩
      have inside := ih goesOn member
      rwa [List.append_assoc, List.singleton_append] at inside

theorem mem_fields_iff {v w : Bytes} :
    w ∈ fields sep v ↔ ∃ front tail, FieldAt sep v front w tail := by
  constructor
  · exact fieldAt_of_mem_fieldsFrom (List.forall_mem_nil _)
  · rintro ⟨front, tail, rfl, isField, opens, closes⟩
    have whole : w ∈ fields sep (w ++ tail) := by
      cases tail with
      | nil => simp [fields_of_isField isField]
      | cons s tail => simp [fields_append_sep w tail (closes s rfl), fields_of_isField isField]
    rcases List.eq_nil_or_concat' front with rfl | ⟨init, s, rfl⟩
    · exact whole
    · have mark : sep s = true := opens s (by simp)
      rw [List.append_assoc, List.singleton_append, fields_append_sep init _ mark]
      exact List.mem_append_right _ whole

theorem fields_isField {v w : Bytes} (member : w ∈ fields sep v) : IsField sep w := by
  obtain ⟨front, tail, stands⟩ := mem_fields_iff.mp member
  exact stands.isField

theorem infix_fields {v w : Bytes} (member : w ∈ fields sep v) : w <:+: v := by
  obtain ⟨front, tail, stands⟩ := mem_fields_iff.mp member
  exact ⟨front, tail, by rw [List.append_assoc, stands.split]⟩

/-- Reading back a joined text yields the fields of its parts in order. -/
theorem fields_joinWith {s : UInt8} (mark : sep s = true) (parts : List Bytes) :
    fields sep (joinWith s parts) = parts.flatMap (fields sep) := by
  induction parts with
  | nil => rfl
  | cons first rest ih =>
    cases rest with
    | nil => simp [joinWith]
    | cons next rest =>
      rw [joinWith, fields_append_sep _ _ mark, ih, List.flatMap_cons (x := first)]

theorem flatMap_fields_of_isField {ts : List Bytes} (all : ∀ t ∈ ts, IsField sep t) :
    ts.flatMap (fields sep) = ts := by
  induction ts with
  | nil => rfl
  | cons t ts ih =>
    rw [List.flatMap_cons, fields_of_isField (all t (by simp)),
      ih fun u member => all u (by simp [member])]
    rfl

theorem fields_joinWith_of_isField {s : UInt8} (mark : sep s = true) {ts : List Bytes}
    (all : ∀ t ∈ ts, IsField sep t) : fields sep (joinWith s ts) = ts := by
  rw [fields_joinWith mark, flatMap_fields_of_isField all]

theorem fields_seps_append {marks : Bytes} (all : ∀ b ∈ marks, sep b = true) (v : Bytes) :
    fields sep (marks ++ v) = fields sep v := by
  induction marks with
  | nil => rfl
  | cons b marks ih =>
    have head : sep b = true := all b (by simp)
    have tail := ih fun c member => all c (by simp [member])
    rw [List.cons_append, fields, fieldsFrom]
    simpa [head, fields] using tail

theorem fields_append_seps {marks : Bytes} (all : ∀ b ∈ marks, sep b = true) (v : Bytes) :
    fields sep (v ++ marks) = fields sep v := by
  cases marks with
  | nil => simp
  | cons b marks =>
    have tail : fields sep marks = [] := by
      simpa using fields_seps_append (v := []) (fun c member => all c (by simp [member]))
    rw [fields_append_sep v marks (all b (by simp)), tail, List.append_nil]

end Fields

section Words

/-- Whitespace-separated words, as a formatted stream extraction reads them. -/
def words (v : Bytes) : List Bytes := fields isSpace v

def IsWord (v : Bytes) : Prop := IsField isSpace v

def joinWords : List Bytes → Bytes := joinWith 32

@[simp] theorem words_nil : words [] = [] := rfl

theorem isSpace_blank : isSpace 32 = true := by decide

theorem words_append_space (first rest : Bytes) {s : UInt8} (space : isSpace s = true) :
    words (first ++ s :: rest) = words first ++ words rest :=
  fields_append_sep first rest space

theorem words_of_isWord {v : Bytes} (word : IsWord v) : words v = [v] := fields_of_isField word

theorem words_isWord {v w : Bytes} (member : w ∈ words v) : IsWord w := fields_isField member

theorem infix_words {v w : Bytes} (member : w ∈ words v) : w <:+: v := infix_fields member

theorem words_joinWords (parts : List Bytes) : words (joinWords parts) = parts.flatMap words :=
  fields_joinWith isSpace_blank parts

theorem flatMap_words_of_isWord {ts : List Bytes} (all : ∀ t ∈ ts, IsWord t) :
    ts.flatMap words = ts :=
  flatMap_fields_of_isField all

theorem words_joinWords_of_isWord {ts : List Bytes} (all : ∀ t ∈ ts, IsWord t) :
    words (joinWords ts) = ts :=
  fields_joinWith_of_isField isSpace_blank all

/-- Joining runs of words is joining the texts of the runs that have any. -/
theorem joinWords_flatten {runs : List (List Bytes)} (filled : ∀ ts ∈ runs, ∀ t ∈ ts, t ≠ []) :
    joinWords runs.flatten = joinWords ((runs.map joinWords).filter (!·.isEmpty)) := by
  induction runs with
  | nil => rfl
  | cons ts runs ih =>
    simp only [List.mem_cons, forall_eq_or_imp] at filled
    have rest := ih filled.2
    by_cases none : ts = []
    · subst none
      simpa [joinWords, joinWith] using rest
    · have text : joinWords ts ≠ [] := fun empty => none ((joinWith_eq_nil filled.1).mp empty)
      rw [List.flatten_cons, List.map_cons, List.filter_cons_of_pos (by simpa using text)]
      have inner : ∀ t ∈ (runs.map joinWords).filter (!·.isEmpty), t ≠ [] := by
        intro t member
        simpa using List.of_mem_filter member
      have flat : ∀ t ∈ runs.flatten, t ≠ [] := by
        intro t member
        obtain ⟨us, found, inside⟩ := List.mem_flatten.mp member
        exact filled.2 us found t inside
      by_cases last : runs.flatten = []
      · rw [last] at rest ⊢
        rw [(joinWith_eq_nil inner).mp rest.symm, List.append_nil]
        rfl
      · have more : (runs.map joinWords).filter (!·.isEmpty) ≠ [] := by
          intro empty
          rw [empty] at rest
          exact last ((joinWith_eq_nil flat).mp rest)
        have split : joinWords (ts ++ runs.flatten) = joinWords ts ++ 32 :: joinWords runs.flatten :=
          joinWith_append none last
        rw [split, rest]
        exact (joinWith_append (show [joinWords ts] ≠ [] by simp) more).symm

theorem words_trim (v : Bytes) : words (trim v) = words v := by
  have front : words (v.dropWhile isSpace) = words v := by
    conv_rhs => rw [← List.takeWhile_append_dropWhile (p := isSpace) (l := v)]
    exact (fields_seps_append (fun b member => List.mem_takeWhile_imp member) _).symm
  have back : words ((v.dropWhile isSpace).rdropWhile isSpace) = words (v.dropWhile isSpace) := by
    conv_rhs => rw [← List.rdropWhile_append_rtakeWhile (p := isSpace) (l := v.dropWhile isSpace)]
    exact (fields_append_seps (fun b member => List.mem_rtakeWhile_imp member) _).symm
  exact back.trans front

/-- A text whose first and last bytes are solid survives trimming, whatever blanks surround it. -/
theorem trim_surrounded {left right : Bytes} (before : ∀ b ∈ left, isSpace b = true)
    (after : ∀ b ∈ right, isSpace b = true) {first last : UInt8} {core : Bytes}
    (solid : isSpace first = false) (close : isSpace last = false) :
    trim (left ++ (first :: core ++ [last]) ++ right) = first :: core ++ [last] := by
  have front : (left ++ (first :: core ++ [last]) ++ right).dropWhile isSpace =
      first :: core ++ [last] ++ right := by
    rw [List.append_assoc, List.dropWhile_append_of_pos before]
    simp [solid]
  have back : (right.reverse ++ ([last] ++ (first :: core).reverse)).dropWhile isSpace =
      [last] ++ (first :: core).reverse := by
    rw [List.dropWhile_append_of_pos (by simpa using after)]
    simp [close]
  rw [trim, front, List.rdropWhile, List.reverse_append, List.reverse_append, List.reverse_singleton,
    back]
  simp

theorem infix_trim (v : Bytes) : trim v <:+: v :=
  (List.rdropWhile_prefix _ _).isInfix.trans (List.dropWhile_suffix _).isInfix

end Words

section Pairs

def splitPairFrom (a b : UInt8) (current : Bytes) : Bytes → List Bytes
  | [] => [current]
  | [x] => [current ++ [x]]
  | x :: y :: rest =>
    if x = a ∧ y = b then current :: splitPairFrom a b [] rest
    else splitPairFrom a b (current ++ [x]) (y :: rest)

/-- The pieces between the leftmost non-overlapping occurrences of a two-byte mark. -/
def splitPair (a b : UInt8) (v : Bytes) : List Bytes := splitPairFrom a b [] v

def NoPair (a b : UInt8) (v : Bytes) : Prop := ¬ [a, b] <:+: v

instance (a b : UInt8) (v : Bytes) : Decidable (NoPair a b v) :=
  inferInstanceAs (Decidable (¬ _))

variable {a b : UInt8}

theorem NoPair.mono {v w : Bytes} (free : NoPair a b v) (inside : w <:+: v) : NoPair a b w :=
  fun found => free (found.trans inside)

@[simp] theorem noPair_nil : NoPair a b [] := by simp [NoPair]

@[simp] theorem noPair_singleton (x : UInt8) : NoPair a b [x] := by
  intro found
  have := found.length_le
  simp at this

theorem noPair_cons_cons {x y : UInt8} {v : Bytes} :
    NoPair a b (x :: y :: v) ↔ ¬ (x = a ∧ y = b) ∧ NoPair a b (y :: v) := by
  simp only [NoPair, @List.infix_cons_iff _ _ _ (y :: v), not_or]
  constructor
  · rintro ⟨first, rest⟩
    refine ⟨fun same => first ⟨v, by simp [same.1, same.2]⟩, rest⟩
  · rintro ⟨first, rest⟩
    refine ⟨?_, rest⟩
    rintro ⟨tail, same⟩
    simp only [List.cons_append, List.nil_append, List.cons.injEq] at same
    exact first ⟨same.1.symm, same.2.1.symm⟩

theorem noPair_of_notMem {v : Bytes} (absent : b ∉ v) : NoPair a b v :=
  fun found => absent (found.subset (by simp))

/-- A joining byte different from both marks keeps the parts apart. -/
theorem noPair_append_cons {v w : Bytes} {s : UInt8} (hv : NoPair a b v) (hw : NoPair a b w)
    (sa : s ≠ a) (sb : s ≠ b) : NoPair a b (v ++ s :: w) := by
  induction v with
  | nil =>
    cases w with
    | nil => simp
    | cons y w => exact noPair_cons_cons.mpr ⟨fun same => sa same.1, hw⟩
  | cons x v ih =>
    cases v with
    | nil =>
      refine noPair_cons_cons.mpr ⟨fun same => sb same.2, ?_⟩
      exact ih noPair_nil
    | cons y v =>
      obtain ⟨first, rest⟩ := noPair_cons_cons.mp hv
      exact noPair_cons_cons.mpr ⟨first, ih rest⟩

theorem noPair_joinWords {ts : List Bytes} (free : ∀ t ∈ ts, NoPair a b t)
    (blankA : (32 : UInt8) ≠ a) (blankB : (32 : UInt8) ≠ b) : NoPair a b (joinWords ts) := by
  induction ts with
  | nil => simp [joinWords, joinWith]
  | cons t ts ih =>
    have rest := ih fun u member => free u (by simp [member])
    cases ts with
    | nil => simpa [joinWords, joinWith] using free t (by simp)
    | cons next more => exact noPair_append_cons (free t (by simp)) rest blankA blankB

theorem noPair_append_singleton {v : Bytes} {x : UInt8} (free : NoPair a b v)
    (last : ¬ (v.getLast? = some a ∧ x = b)) : NoPair a b (v ++ [x]) := by
  induction v with
  | nil => simp
  | cons y v ih =>
    cases v with
    | nil =>
      refine noPair_cons_cons.mpr ⟨fun same => last ?_, noPair_singleton x⟩
      simpa using same
    | cons z v =>
      obtain ⟨first, rest⟩ := noPair_cons_cons.mp free
      refine noPair_cons_cons.mpr ⟨first, ih rest ?_⟩
      simpa using last

theorem splitPairFrom_noPair {current v p : Bytes}
    (free : NoPair a b (current ++ v.take 1)) (member : p ∈ splitPairFrom a b current v) :
    NoPair a b p := by
  induction current, v using splitPairFrom.induct a b with
  | case1 current =>
    obtain rfl := List.mem_singleton.mp (by simpa [splitPairFrom] using member)
    simpa using free
  | case2 current x =>
    have same : p = current ++ [x] := by simpa [splitPairFrom] using member
    simpa [same] using free
  | case3 current x y rest mark ih =>
    rw [splitPairFrom, if_pos mark] at member
    rcases List.mem_cons.mp member with rfl | member
    · exact free.mono (List.prefix_append _ _).isInfix
    · refine ih ?_ member
      cases rest <;> simp
  | case4 current x y rest mark ih =>
    rw [splitPairFrom, if_neg mark] at member
    refine ih ?_ member
    apply noPair_append_singleton (by simpa using free)
    rintro ⟨last, rfl⟩
    exact mark ⟨by simpa using last, rfl⟩

theorem splitPair_noPair {v p : Bytes} (member : p ∈ splitPair a b v) : NoPair a b p :=
  splitPairFrom_noPair (by cases v <;> simp) member

theorem splitPairFrom_of_noPair {current v : Bytes} (free : NoPair a b v) :
    splitPairFrom a b current v = [current ++ v] := by
  induction current, v using splitPairFrom.induct a b with
  | case1 current => simp [splitPairFrom]
  | case2 current x => simp [splitPairFrom]
  | case3 current x y rest mark ih => exact absurd mark (noPair_cons_cons.mp free).1
  | case4 current x y rest mark ih =>
    rw [splitPairFrom, if_neg mark, ih (noPair_cons_cons.mp free).2]
    simp

/-- Text without the mark is one piece. -/
theorem splitPair_of_noPair {v : Bytes} (free : NoPair a b v) : splitPair a b v = [v] :=
  splitPairFrom_of_noPair free

theorem splitPairFrom_append_current (current more v : Bytes) :
    splitPairFrom a b (current ++ more) v = (splitPairFrom a b more v).modifyHead (current ++ ·) := by
  induction more, v using splitPairFrom.induct a b with
  | case1 more => simp [splitPairFrom]
  | case2 more x => simp [splitPairFrom]
  | case3 more x y rest mark ih => simp [splitPairFrom, mark]
  | case4 more x y rest mark ih =>
    rw [splitPairFrom, if_neg mark, splitPairFrom, if_neg mark, List.append_assoc]
    exact ih

theorem splitPairFrom_cons_other {s : UInt8} (sa : s ≠ a) (current v : Bytes) :
    splitPairFrom a b current (s :: v) = splitPairFrom a b (current ++ [s]) v := by
  cases v with
  | nil => simp [splitPairFrom]
  | cons y v => simp [splitPairFrom, sa]

theorem splitPairFrom_ne_nil (current v : Bytes) : splitPairFrom a b current v ≠ [] := by
  induction current, v using splitPairFrom.induct a b with
  | case1 => simp [splitPairFrom]
  | case2 => simp [splitPairFrom]
  | case3 _ _ _ _ mark => simp [splitPairFrom, mark]
  | case4 _ _ _ _ mark ih => simpa [splitPairFrom, mark] using ih

/-- A single piece is the whole text. -/
theorem eq_of_splitPairFrom_singleton {current v p : Bytes}
    (single : splitPairFrom a b current v = [p]) : p = current ++ v := by
  induction current, v using splitPairFrom.induct a b with
  | case1 current => simpa [splitPairFrom, eq_comm] using single
  | case2 current x => simpa [splitPairFrom, eq_comm] using single
  | case3 current x y rest mark ih =>
    rw [splitPairFrom, if_pos mark, List.cons.injEq] at single
    exact absurd single.2 (splitPairFrom_ne_nil _ _)
  | case4 current x y rest mark ih =>
    rw [splitPairFrom, if_neg mark] at single
    simpa using ih single

theorem eq_of_splitPair_singleton {v p : Bytes} (single : splitPair a b v = [p]) : p = v :=
  eq_of_splitPairFrom_singleton single

/-- Only text without the mark is one piece. -/
theorem noPair_of_splitPair_singleton {v p : Bytes} (single : splitPair a b v = [p]) :
    NoPair a b v := by
  have free : NoPair a b p := splitPair_noPair (v := v) (by simp [single])
  rwa [eq_of_splitPair_singleton single] at free

theorem splitPair_ne_nil (v : Bytes) : splitPair a b v ≠ [] := splitPairFrom_ne_nil [] v

theorem flatMap_words_modifyHead (first : Bytes) {s : UInt8} (space : isSpace s = true)
    {pieces : List Bytes} (filled : pieces ≠ []) :
    (pieces.modifyHead (first ++ [s] ++ ·)).flatMap words = words first ++ pieces.flatMap words := by
  cases pieces with
  | nil => exact absurd rfl filled
  | cons piece pieces => simp [words_append_space first piece space]

/-- Whitespace is a boundary for the words between marks. -/
theorem flatMap_words_splitPair_append {s : UInt8} (space : isSpace s = true) (sa : s ≠ a)
    (sb : s ≠ b) (v w : Bytes) :
    (splitPair a b (v ++ s :: w)).flatMap words =
      (splitPair a b v).flatMap words ++ (splitPair a b w).flatMap words := by
  have general : ∀ current, (splitPairFrom a b current (v ++ s :: w)).flatMap words =
      (splitPairFrom a b current v).flatMap words ++ (splitPair a b w).flatMap words := by
    intro current
    have close : ∀ current, (splitPairFrom a b current (s :: w)).flatMap words =
        words current ++ (splitPair a b w).flatMap words := by
      intro current
      have split := splitPairFrom_append_current (a := a) (b := b) (current ++ [s]) [] w
      rw [List.append_nil] at split
      rw [splitPairFrom_cons_other sa, split]
      exact flatMap_words_modifyHead current space (splitPair_ne_nil w)
    induction current, v using splitPairFrom.induct a b with
    | case1 current => simpa [splitPairFrom] using close current
    | case2 current x =>
      have step : splitPairFrom a b current (x :: s :: w) =
          splitPairFrom a b (current ++ [x]) (s :: w) := by simp [splitPairFrom, sb]
      rw [List.singleton_append, step, close]
      simp [splitPairFrom]
    | case3 current x y rest mark ih =>
      simp only [List.cons_append, splitPairFrom, if_pos mark, List.flatMap_cons, ih,
        List.append_assoc]
    | case4 current x y rest mark ih =>
      simp only [List.cons_append, splitPairFrom, if_neg mark] at ih ⊢
      exact ih
  exact general []

theorem trim_append_singleton (v : Bytes) {s : UInt8} (space : isSpace s = true) :
    trim (v ++ [s]) = trim v := by
  simp only [trim]
  rw [List.dropWhile_append]
  split
  · rename_i blank
    rw [List.isEmpty_iff.mp blank]
    simp [space]
  · exact List.rdropWhile_concat_pos _ _ _ space

/-- A mark behind whitespace ends the last piece and starts the pieces of the rest. -/
theorem map_trim_splitPair_append {s : UInt8} (space : isSpace s = true) (sa : s ≠ a)
    (sb : s ≠ b) (v w : Bytes) :
    (splitPair a b (v ++ s :: a :: b :: w)).map trim =
      (splitPair a b v).map trim ++ (splitPair a b w).map trim := by
  have close : ∀ current, (splitPairFrom a b current (s :: a :: b :: w)).map trim =
      trim current :: (splitPair a b w).map trim := by
    intro current
    have marked : splitPairFrom a b (current ++ [s]) (a :: b :: w) =
        (current ++ [s]) :: splitPair a b w := by
      rw [splitPairFrom, if_pos ⟨rfl, rfl⟩]
      rfl
    rw [splitPairFrom_cons_other sa, marked, List.map_cons, trim_append_singleton _ space]
  have general : ∀ current, (splitPairFrom a b current (v ++ s :: a :: b :: w)).map trim =
      (splitPairFrom a b current v).map trim ++ (splitPair a b w).map trim := by
    intro current
    induction current, v using splitPairFrom.induct a b with
    | case1 current => exact close current
    | case2 current x =>
      have step : splitPairFrom a b current (x :: s :: a :: b :: w) =
          splitPairFrom a b (current ++ [x]) (s :: a :: b :: w) := by simp [splitPairFrom, sb]
      rw [List.singleton_append, step, close]
      rfl
    | case3 current x y rest mark ih =>
      simp only [List.cons_append, splitPairFrom, if_pos mark, List.map_cons, ih]
    | case4 current x y rest mark ih =>
      simp only [List.cons_append, splitPairFrom, if_neg mark] at ih ⊢
      exact ih
  exact general []

end Pairs

theorem substr_add (v : Bytes) (pos m n : Nat) :
    substr v pos (m + n) = substr v pos m ++ substr v (pos + m) n := by
  simp only [substr, List.take_add, List.drop_drop]

section Numerals

/-- The value of a digit run, as an integer parser accumulates it. -/
def digitsValue (v : Bytes) : Nat := v.foldl (fun value b => value * 10 + (b.toNat - 48)) 0

def digit (n : Nat) : UInt8 := UInt8.ofNat (48 + n % 10)

/-- Exactly `width` digits, most significant first. -/
def fixedDigits : Nat → Nat → Bytes
  | 0, _ => []
  | width + 1, n => fixedDigits width (n / 10) ++ [digit n]

def decimal (n : Nat) : Bytes :=
  if n = 0 then [digit 0] else ((Nat.digits 10 n).reverse).map digit

def decimalInt : Int → Bytes
  | .ofNat n => decimal n
  | .negSucc n => 45 :: decimal (n + 1)

theorem digit_toNat (n : Nat) : (digit n).toNat = 48 + n % 10 :=
  UInt8.toNat_ofNat_of_lt' (show 48 + n % 10 < 256 by omega)

theorem isDigit_digit (n : Nat) : isDigit (digit n) = true := by
  rw [isDigit_iff, digit_toNat]
  omega

@[simp] theorem length_fixedDigits (width n : Nat) : (fixedDigits width n).length = width := by
  induction width generalizing n with
  | zero => rfl
  | succ width ih => simp [fixedDigits, ih]

theorem isDigit_of_mem_fixedDigits {width n : Nat} {b : UInt8}
    (member : b ∈ fixedDigits width n) : isDigit b = true := by
  induction width generalizing n with
  | zero => simp [fixedDigits] at member
  | succ width ih =>
    rcases List.mem_append.mp member with member | member
    · exact ih member
    · obtain rfl := List.mem_singleton.mp member
      exact isDigit_digit n

theorem allDigits_fixedDigits {width : Nat} (positive : 0 < width) (n : Nat) :
    allDigits (fixedDigits width n) = true := by
  refine allDigits_iff.mpr ⟨?_, fun b => isDigit_of_mem_fixedDigits⟩
  intro empty
  have := congrArg List.length empty
  simp at this
  omega

theorem digitsValue_append_singleton (v : Bytes) (b : UInt8) :
    digitsValue (v ++ [b]) = digitsValue v * 10 + (b.toNat - 48) := by
  simp [digitsValue]

theorem digitsValue_fixedDigits {width n : Nat} (fits : n < 10 ^ width) :
    digitsValue (fixedDigits width n) = n := by
  induction width generalizing n with
  | zero =>
    have : n = 0 := by simpa using fits
    simp [fixedDigits, digitsValue, this]
  | succ width ih =>
    have tail : n / 10 < 10 ^ width := by
      rw [Nat.pow_succ] at fits
      omega
    rw [fixedDigits, digitsValue_append_singleton, ih tail, digit_toNat]
    omega

/-- A digit run is determined by its length and its value. -/
theorem eq_fixedDigits {v : Bytes} (digits : ∀ b ∈ v, isDigit b = true) :
    v = fixedDigits v.length (digitsValue v) := by
  induction v using List.reverseRecOn with
  | nil => rfl
  | append_singleton v b ih =>
    have last : isDigit b = true := digits b (by simp)
    rw [isDigit_iff] at last
    have front : (digitsValue v * 10 + (b.toNat - 48)) / 10 = digitsValue v := by omega
    have byte : digit (digitsValue v * 10 + (b.toNat - 48)) = b := by
      rw [← UInt8.toNat_inj, digit_toNat]
      omega
    rw [digitsValue_append_singleton, List.length_append, List.length_singleton, fixedDigits, front,
      byte, ← ih fun c member => digits c (by simp [member])]

theorem substr_eq_fixedDigits {v : Bytes} (digits : allDigits v = true) {pos n : Nat}
    (fits : pos + n ≤ v.length) : substr v pos n = fixedDigits n (digitsValue (substr v pos n)) := by
  have inside : ∀ b ∈ substr v pos n, isDigit b = true := fun b member =>
    (allDigits_iff.mp digits).2 b (List.mem_of_mem_drop (List.mem_of_mem_take member))
  have width : (substr v pos n).length = n := by
    simp only [substr, List.length_take, List.length_drop]
    omega
  have runs := eq_fixedDigits inside
  rwa [width] at runs

theorem isDigit_of_mem_decimal {n : Nat} {b : UInt8} (member : b ∈ decimal n) :
    isDigit b = true := by
  simp only [decimal] at member
  split at member
  · obtain rfl := List.mem_singleton.mp member
    exact isDigit_digit 0
  · obtain ⟨d, -, rfl⟩ := List.mem_map.mp member
    exact isDigit_digit d

theorem decimal_ne_nil (n : Nat) : decimal n ≠ [] := by
  simp only [decimal]
  split
  · simp
  · rename_i nonzero
    rw [ne_eq, List.map_eq_nil_iff, List.reverse_eq_nil_iff]
    exact mt Nat.digits_eq_nil_iff_eq_zero.mp nonzero

@[simp] theorem digitsValue_decimal (n : Nat) : digitsValue (decimal n) = n := by
  have general : ∀ ds : List Nat, (∀ d ∈ ds, d < 10) →
      digitsValue (ds.reverse.map digit) = Nat.ofDigits 10 ds := by
    intro ds small
    induction ds with
    | nil => rfl
    | cons d ds ih =>
      rw [List.forall_mem_cons] at small
      rw [List.reverse_cons, List.map_append, List.map_singleton, digitsValue_append_singleton,
        ih small.2, digit_toNat, Nat.ofDigits_cons]
      omega
  simp only [decimal]
  split
  · rename_i zero
    rw [zero]
    rfl
  · rw [general _ fun d member => Nat.digits_lt_base (by decide) member, Nat.ofDigits_digits]

theorem lt_pow_length_decimal (n : Nat) : n < 10 ^ (decimal n).length := by
  simp only [decimal]
  split
  · rename_i zero
    rw [zero]
    decide
  · rw [List.length_map, List.length_reverse]
    exact Nat.lt_base_pow_length_digits (by decide)

/-- A four-digit number prints without padding. -/
theorem decimal_eq_fixedDigits_four {n : Nat} (low : 1000 ≤ n) (high : n < 10000) :
    decimal n = fixedDigits 4 n := by
  have d0 : Nat.digits 10 n = n % 10 :: Nat.digits 10 (n / 10) :=
    Nat.digits_def' (by decide) (by omega)
  have d1 : Nat.digits 10 (n / 10) = n / 10 % 10 :: Nat.digits 10 (n / 10 / 10) :=
    Nat.digits_def' (by decide) (by omega)
  have d2 : Nat.digits 10 (n / 10 / 10) = n / 10 / 10 % 10 :: Nat.digits 10 (n / 10 / 10 / 10) :=
    Nat.digits_def' (by decide) (by omega)
  have d3 : Nat.digits 10 (n / 10 / 10 / 10) = [n / 10 / 10 / 10] :=
    Nat.digits_of_lt 10 _ (by omega) (by omega)
  have nonzero : n ≠ 0 := by omega
  have fold : ∀ m, digit (m % 10) = digit m := fun m => by simp [digit]
  simp [decimal, nonzero, d0, d1, d2, d3, fixedDigits, fold]

end Numerals

end ByteText
