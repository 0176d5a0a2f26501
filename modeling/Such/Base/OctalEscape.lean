import Such.Base.ByteText

/-! Text fields in which some bytes are written as a backslash and three octal digits. -/
namespace OctalEscape
open ByteText

def isOctal (b : UInt8) : Bool := 48 ≤ b && b ≤ 55

/-- The byte three octal digits stand for, cut off to eight bits. -/
def octalByte (x y z : UInt8) : UInt8 :=
  UInt8.ofNat ((x.toNat - 48) * 64 + (y.toNat - 48) * 8 + (z.toNat - 48))

/-- Reads every complete escape; a backslash that begins none stands for itself. -/
def unescape : Bytes → Bytes
  | b :: x :: y :: z :: rest =>
    if b == 92 && isOctal x && isOctal y && isOctal z then octalByte x y z :: unescape rest
    else b :: unescape (x :: y :: z :: rest)
  | short => short

def escapeByte (b : UInt8) : Bytes := [92, 48 + b / 64, 48 + b / 8 % 8, 48 + b % 8]

/-- The text with its marked bytes escaped. -/
def escape (marked : UInt8 → Bool) (text : Bytes) : Bytes :=
  text.flatMap fun b => if marked b then escapeByte b else [b]

variable {marked : UInt8 → Bool}

theorem unescape_cons_of_ne {b : UInt8} (plain : b ≠ 92) (rest : Bytes) :
    unescape (b :: rest) = b :: unescape rest := by
  match rest with
  | x :: y :: z :: rest =>
    rw [unescape, beq_eq_false_iff_ne.2 plain]
    rfl
  | [] | [_] | [_, _] => rfl

theorem octal_digits : ∀ n : Fin 256,
    let b := UInt8.ofNat n
    isOctal (48 + b / 64) = true ∧ isOctal (48 + b / 8 % 8) = true ∧ isOctal (48 + b % 8) = true ∧
      octalByte (48 + b / 64) (48 + b / 8 % 8) (48 + b % 8) = b := by
  decide +kernel

theorem unescape_escapeByte (b : UInt8) (rest : Bytes) :
    unescape (escapeByte b ++ rest) = b :: unescape rest := by
  obtain ⟨high, middle, low, value⟩ := octal_digits ⟨b.toNat, b.toNat_lt⟩
  rw [UInt8.ofNat_toNat] at high middle low value
  simp only [escapeByte, List.cons_append, List.nil_append]
  rw [unescape]
  simp only [high, middle, low, value, beq_self_eq_true, Bool.and_self, if_true]

theorem escape_cons (b : UInt8) (text : Bytes) :
    escape marked (b :: text) = (if marked b then escapeByte b else [b]) ++ escape marked text := rfl

/-- What was escaped is read back, whichever bytes are marked beside the backslash. -/
theorem unescape_escape (backslash : marked 92 = true) (text : Bytes) :
    unescape (escape marked text) = text := by
  induction text with
  | nil => rfl
  | cons b text ih =>
    rw [escape_cons]
    by_cases mark : marked b = true
    · rw [if_pos mark, unescape_escapeByte, ih]
    · have plain : b ≠ 92 := fun same => mark (same ▸ backslash)
      rw [if_neg mark, List.singleton_append, unescape_cons_of_ne plain, ih]

/-- A marked byte stands in an escaped text only as part of an escape. -/
theorem mem_escape {b : UInt8} {text : Bytes} (member : b ∈ escape marked text) :
    b = 92 ∨ isOctal b = true ∨ b ∈ text ∧ marked b = false := by
  obtain ⟨source, listed, written⟩ := List.mem_flatMap.1 member
  split at written
  · obtain ⟨high, middle, low, -⟩ := octal_digits ⟨source.toNat, source.toNat_lt⟩
    rw [UInt8.ofNat_toNat] at high middle low
    simp only [escapeByte, List.mem_cons, List.not_mem_nil, or_false] at written
    rcases written with rfl | rfl | rfl | rfl
    · exact .inl rfl
    · exact .inr (.inl high)
    · exact .inr (.inl middle)
    · exact .inr (.inl low)
  · rename_i plain
    rw [List.mem_singleton.1 written]
    exact .inr (.inr ⟨listed, Bool.not_eq_true _ ▸ plain⟩)

theorem escape_ne_nil {text : Bytes} (filled : text ≠ []) : escape marked text ≠ [] := by
  obtain ⟨b, rest, rfl⟩ := List.exists_cons_of_ne_nil filled
  rw [escape_cons]
  split <;> simp [escapeByte]

/-- With all its white space marked, an escaped text is one word. -/
theorem escape_isWord {text : Bytes} (filled : text ≠ [])
    (spaces : ∀ b ∈ text, isSpace b = true → marked b = true) : IsWord (escape marked text) := by
  refine ⟨escape_ne_nil filled, fun b member => ?_⟩
  by_contra space
  rw [Bool.not_eq_false] at space
  rcases mem_escape member with rfl | digit | ⟨listed, plain⟩
  · exact absurd space (by decide)
  · rw [isSpace_iff] at space
    simp only [isOctal, Bool.and_eq_true, decide_eq_true_eq, UInt8.le_iff_toNat_le] at digit
    have low : 48 ≤ b.toNat := digit.1
    omega
  · rw [spaces b listed space] at plain
    cases plain

example : unescape (lit "/mnt/My\\040Disk\\7") = lit "/mnt/My Disk\\7" := by decide +kernel

end OctalEscape
