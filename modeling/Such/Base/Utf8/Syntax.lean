import Such.Base.Utf8
import Mathlib.Data.List.Forall2

/-! The byte syntax of UTF-8 beside its code points: the ranges the bytes of a character may
come from leave exactly the encodings of the scalar values. -/
namespace Utf8
open ByteText

def tailRange : Nat × Nat := (0x80, 0xBF)

/-- The alternatives for one character, a range for each of its bytes. Overlong forms, surrogates
and what lies above the last code point have none. -/
def charSyntax : List (List (Nat × Nat)) := [
  [(0x00, 0x7F)],
  [(0xC2, 0xDF), tailRange],
  [(0xE0, 0xE0), (0xA0, 0xBF), tailRange],
  [(0xE1, 0xEC), tailRange, tailRange],
  [(0xED, 0xED), (0x80, 0x9F), tailRange],
  [(0xEE, 0xEF), tailRange, tailRange],
  [(0xF0, 0xF0), (0x90, 0xBF), tailRange, tailRange],
  [(0xF1, 0xF3), tailRange, tailRange, tailRange],
  [(0xF4, 0xF4), (0x80, 0x8F), tailRange, tailRange]]

def InRange (range : Nat × Nat) (b : UInt8) : Prop := range.1 ≤ b.toNat ∧ b.toNat ≤ range.2

def IsUtf8Char (v : Bytes) : Prop := ∃ row ∈ charSyntax, List.Forall₂ InRange row v

/-- Characters one after the other, and nothing else. -/
inductive WellFormed : Bytes → Prop where
  | nil : WellFormed []
  | cons {v rest : Bytes} (first : IsUtf8Char v) (tail : WellFormed rest) : WellFormed (v ++ rest)

/-- The bytes are those of the code points, in order. -/
inductive Spells : List Nat → Bytes → Prop where
  | nil : Spells [] []
  | cons {n : Nat} {ns : List Nat} {v rest : Bytes} (scalar : IsScalar n) (encoded : Encoded n v)
    (tail : Spells ns rest) : Spells (n :: ns) (v ++ rest)

theorem isUtf8Char_one {a : UInt8} : IsUtf8Char [a] ↔ a.toNat < 0x80 := by
  simp [IsUtf8Char, charSyntax, InRange]
  omega

theorem isUtf8Char_two {a b : UInt8} :
    IsUtf8Char [a, b] ↔ (0xC2 ≤ a.toNat ∧ a.toNat ≤ 0xDF) ∧ b.toNat / 0x40 = 2 := by
  simp [IsUtf8Char, charSyntax, tailRange, InRange]
  omega

theorem isUtf8Char_three {a b c : UInt8} : IsUtf8Char [a, b, c] ↔
    (0xE0 ≤ a.toNat ∧ a.toNat ≤ 0xEF) ∧ b.toNat / 0x40 = 2 ∧ c.toNat / 0x40 = 2 ∧
      (a.toNat = 0xE0 → 0xA0 ≤ b.toNat) ∧ (a.toNat = 0xED → b.toNat < 0xA0) := by
  simp [IsUtf8Char, charSyntax, tailRange, InRange]
  omega

theorem isUtf8Char_four {a b c d : UInt8} : IsUtf8Char [a, b, c, d] ↔
    (0xF0 ≤ a.toNat ∧ a.toNat ≤ 0xF4) ∧ b.toNat / 0x40 = 2 ∧ c.toNat / 0x40 = 2 ∧
      d.toNat / 0x40 = 2 ∧ (a.toNat = 0xF0 → 0x90 ≤ b.toNat) ∧ (a.toNat = 0xF4 → b.toNat < 0x90) := by
  simp [IsUtf8Char, charSyntax, tailRange, InRange]
  omega

theorem length_isUtf8Char {v : Bytes} (char : IsUtf8Char v) : 1 ≤ v.length ∧ v.length ≤ 4 := by
  obtain ⟨row, member, ranges⟩ := char
  have rows : ∀ row ∈ charSyntax, 1 ≤ row.length ∧ row.length ≤ 4 := by decide
  rw [← ranges.length_eq]
  exact rows row member

theorem isUtf8Char_of_encoded {n : Nat} {v : Bytes} (scalar : IsScalar n) (encoded : Encoded n v) :
    IsUtf8Char v := by
  have byte : ∀ m, m < 256 → (UInt8.ofNat m).toNat = m := fun _ => UInt8.toNat_ofNat_of_lt'
  simp only [IsScalar] at scalar
  cases encoded with
  | one high =>
    rw [isUtf8Char_one, byte n (by omega)]
    exact high
  | two low high =>
    rw [isUtf8Char_two, byte (0xC0 + n / 0x40) (by omega), byte (0x80 + n % 0x40) (by omega)]
    omega
  | three low high =>
    rw [isUtf8Char_three, byte (0xE0 + n / 0x1000) (by omega),
      byte (0x80 + n / 0x40 % 0x40) (by omega), byte (0x80 + n % 0x40) (by omega)]
    omega
  | four low high =>
    rw [isUtf8Char_four, byte (0xF0 + n / 0x40000) (by omega),
      byte (0x80 + n / 0x1000 % 0x40) (by omega), byte (0x80 + n / 0x40 % 0x40) (by omega),
      byte (0x80 + n % 0x40) (by omega)]
    omega

theorem IsUtf8Char.exists_encoded {v : Bytes} (char : IsUtf8Char v) : ∃ n, IsScalar n ∧ Encoded n v := by
  match v, char with
  | [], char => exact absurd (length_isUtf8Char char).1 (by simp)
  | [a], char =>
    rw [isUtf8Char_one] at char
    have encoded := Encoded.one char
    rw [UInt8.ofNat_toNat] at encoded
    exact ⟨_, .inl (by omega), encoded⟩
  | [a, b], char =>
    obtain ⟨lead, part⟩ := isUtf8Char_two.mp char
    exact ⟨_, .inl (by omega), encoded_two lead part⟩
  | [a, b, c], char =>
    obtain ⟨lead, part, part', overlong, surrogate⟩ := isUtf8Char_three.mp char
    refine ⟨_, ?_, encoded_three lead part part' (by omega)⟩
    simp only [IsScalar]
    omega
  | [a, b, c, d], char =>
    obtain ⟨lead, part, part', part'', overlong, limit⟩ := isUtf8Char_four.mp char
    refine ⟨_, ?_, encoded_four lead part part' part'' (by omega) (by omega)⟩
    simp only [IsScalar]
    omega
  | _ :: _ :: _ :: _ :: _ :: _, char => exact absurd (length_isUtf8Char char).2 (by simp)

/-- The syntax of a character allows exactly the encodings of the scalar values. -/
theorem isUtf8Char_iff {v : Bytes} : IsUtf8Char v ↔ ∃ n, IsScalar n ∧ Encoded n v := by
  constructor
  · exact IsUtf8Char.exists_encoded
  · rintro ⟨n, scalar, encoded⟩
    exact isUtf8Char_of_encoded scalar encoded

/-- A text is well formed when it spells some code points. -/
theorem wellFormed_iff {v : Bytes} : WellFormed v ↔ ∃ ns, Spells ns v := by
  constructor
  · intro formed
    induction formed with
    | nil => exact ⟨[], .nil⟩
    | cons first tail ih =>
      obtain ⟨n, scalar, encoded⟩ := isUtf8Char_iff.mp first
      obtain ⟨ns, spelled⟩ := ih
      exact ⟨n :: ns, .cons scalar encoded spelled⟩
  · rintro ⟨ns, spelled⟩
    induction spelled with
    | nil => exact .nil
    | cons scalar encoded tail ih => exact .cons (isUtf8Char_iff.mpr ⟨_, scalar, encoded⟩) ih

theorem Encoded.unique {n : Nat} {v w : Bytes} (left : Encoded n v) (right : Encoded n w) : v = w := by
  cases left <;> cases right <;> first | rfl | omega

theorem spells_iff {ns : List Nat} {v : Bytes} :
    Spells ns v ↔ ∃ cs : List Char, ns = cs.map Char.toNat ∧ v = utf8 cs := by
  constructor
  · intro spelled
    induction spelled with
    | nil => exact ⟨[], rfl, rfl⟩
    | cons scalar encoded tail ih =>
      obtain ⟨cs, rfl, rfl⟩ := ih
      obtain ⟨c, rfl⟩ := exists_char scalar
      exact ⟨c :: cs, rfl, by rw [utf8_cons, encoded.unique (encoded_char c)]⟩
  · rintro ⟨cs, rfl, rfl⟩
    induction cs with
    | nil => exact .nil
    | cons c cs ih => exact .cons (isScalar_toNat c) (encoded_char c) ih

end Utf8
