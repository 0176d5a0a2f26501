import Such.Base.ByteText
import Mathlib.Data.List.DropRight

/-! The UTF-8 text of a list of characters, Unicode's scalar values: one leading byte for each,
then its continuation bytes. -/
namespace Utf8
open ByteText

def utf8 (cs : List Char) : Bytes := cs.flatMap String.utf8EncodeChar

/-- Two leading bits, `10`. -/
def isContinuation (b : UInt8) : Bool := b &&& 0xC0 == 0x80

@[simp] theorem utf8_nil : utf8 [] = [] := rfl

theorem utf8_cons (c : Char) (cs : List Char) : utf8 (c :: cs) = String.utf8EncodeChar c ++ utf8 cs :=
  List.flatMap_cons

@[simp] theorem utf8_append (cs ds : List Char) : utf8 (cs ++ ds) = utf8 cs ++ utf8 ds :=
  List.flatMap_append

@[simp] theorem utf8_singleton (c : Char) : utf8 [c] = String.utf8EncodeChar c := by
  rw [utf8_cons, utf8_nil, List.append_nil]

theorem isContinuation_iff (b : UInt8) : isContinuation b = true ↔ b.toNat / 64 = 2 := by
  have bytes : ∀ n < 256, n &&& 192 = 128 ↔ n / 64 = 2 := by decide +kernel
  rw [← bytes b.toNat b.toNat_lt, isContinuation, beq_iff_eq, ← UInt8.toNat_inj]
  rfl

theorem isContinuation_ofNat {n : Nat} (small : n < 256) :
    isContinuation (UInt8.ofNat n) = true ↔ n / 64 = 2 := by
  rw [isContinuation_iff, UInt8.toNat_ofNat_of_lt' small]

/-- The four encoded lengths of a code point. -/
inductive Encoded : Nat → Bytes → Prop where
  | one {n : Nat} (high : n < 0x80) : Encoded n [UInt8.ofNat n]
  | two {n : Nat} (low : 0x80 ≤ n) (high : n < 0x800) :
    Encoded n [UInt8.ofNat (0xC0 + n / 0x40), UInt8.ofNat (0x80 + n % 0x40)]
  | three {n : Nat} (low : 0x800 ≤ n) (high : n < 0x10000) :
    Encoded n [UInt8.ofNat (0xE0 + n / 0x1000), UInt8.ofNat (0x80 + n / 0x40 % 0x40),
      UInt8.ofNat (0x80 + n % 0x40)]
  | four {n : Nat} (low : 0x10000 ≤ n) (high : n < 0x110000) :
    Encoded n [UInt8.ofNat (0xF0 + n / 0x40000), UInt8.ofNat (0x80 + n / 0x1000 % 0x40),
      UInt8.ofNat (0x80 + n / 0x40 % 0x40), UInt8.ofNat (0x80 + n % 0x40)]

/-- What a character may be. -/
def IsScalar (n : Nat) : Prop := n < 0xD800 ∨ (0xDFFF < n ∧ n < 0x110000)

theorem isScalar_toNat (c : Char) : IsScalar c.toNat := by
  have valid : c.toNat.isValidChar := c.valid
  simp only [Nat.isValidChar] at valid
  simp only [IsScalar]
  omega

theorem exists_char {n : Nat} (scalar : IsScalar n) : ∃ c : Char, c.toNat = n := by
  have valid : n.isValidChar := by
    simp only [IsScalar] at scalar
    simp only [Nat.isValidChar]
    omega
  exact ⟨Char.ofNatAux n valid, rfl⟩

theorem encoded_char (c : Char) : Encoded c.toNat (String.utf8EncodeChar c) := by
  have scalar := isScalar_toNat c
  have limit : c.toNat < 0x110000 := by
    simp only [IsScalar] at scalar
    omega
  have shape : String.utf8EncodeChar c =
      if c.toNat ≤ 0x7f then [UInt8.ofNat c.toNat]
      else if c.toNat ≤ 0x7ff then
        [UInt8.ofNat (c.toNat / 64 % 0x20 + 0xc0), UInt8.ofNat (c.toNat % 0x40 + 0x80)]
      else if c.toNat ≤ 0xffff then
        [UInt8.ofNat (c.toNat / 4096 % 0x10 + 0xe0), UInt8.ofNat (c.toNat / 64 % 0x40 + 0x80),
          UInt8.ofNat (c.toNat % 0x40 + 0x80)]
      else [UInt8.ofNat (c.toNat / 262144 % 0x08 + 0xf0), UInt8.ofNat (c.toNat / 4096 % 0x40 + 0x80),
        UInt8.ofNat (c.toNat / 64 % 0x40 + 0x80), UInt8.ofNat (c.toNat % 0x40 + 0x80)] := rfl
  generalize c.toNat = n at shape limit
  rw [shape]
  split_ifs with one two three
  · exact .one (by omega)
  · rw [Nat.mod_eq_of_lt (show n / 64 < 0x20 by omega), Nat.add_comm _ 0xc0, Nat.add_comm _ 0x80]
    exact .two (by omega) (by omega)
  · rw [Nat.mod_eq_of_lt (show n / 4096 < 0x10 by omega), Nat.add_comm _ 0xe0, Nat.add_comm _ 0x80,
      Nat.add_comm _ 0x80]
    exact .three (by omega) (by omega)
  · rw [Nat.mod_eq_of_lt (show n / 262144 < 0x08 by omega), Nat.add_comm _ 0xf0, Nat.add_comm _ 0x80,
      Nat.add_comm _ 0x80, Nat.add_comm _ 0x80]
    exact .four (by omega) limit

theorem ofNat_of_toNat {b : UInt8} {n : Nat} (same : n = b.toNat) : UInt8.ofNat n = b := by
  rw [same, UInt8.ofNat_toNat]

theorem encoded_two {a b : UInt8} (lead : 0xC2 ≤ a.toNat ∧ a.toNat ≤ 0xDF) (part : b.toNat / 0x40 = 2) :
    Encoded (a.toNat % 0x20 * 0x40 + b.toNat % 0x40) [a, b] := by
  generalize shape : a.toNat % 0x20 * 0x40 + b.toNat % 0x40 = n
  have encoded := @Encoded.two n (by omega) (by omega)
  rwa [@ofNat_of_toNat a _ (by omega), @ofNat_of_toNat b _ (by omega)] at encoded

theorem encoded_three {a b c : UInt8} (lead : 0xE0 ≤ a.toNat ∧ a.toNat ≤ 0xEF)
    (part : b.toNat / 0x40 = 2) (part' : c.toNat / 0x40 = 2)
    (low : 0x800 ≤ (a.toNat % 0x10 * 0x40 + b.toNat % 0x40) * 0x40 + c.toNat % 0x40) :
    Encoded ((a.toNat % 0x10 * 0x40 + b.toNat % 0x40) * 0x40 + c.toNat % 0x40) [a, b, c] := by
  generalize shape : (a.toNat % 0x10 * 0x40 + b.toNat % 0x40) * 0x40 + c.toNat % 0x40 = n at low ⊢
  have encoded := @Encoded.three n low (by omega)
  rwa [@ofNat_of_toNat a _ (by omega), @ofNat_of_toNat b _ (by omega),
    @ofNat_of_toNat c _ (by omega)] at encoded

theorem encoded_four {a b c d : UInt8} (lead : 0xF0 ≤ a.toNat ∧ a.toNat ≤ 0xF4)
    (part : b.toNat / 0x40 = 2) (part' : c.toNat / 0x40 = 2) (part'' : d.toNat / 0x40 = 2)
    (low : 0x10000 ≤ ((a.toNat % 0x08 * 0x40 + b.toNat % 0x40) * 0x40 + c.toNat % 0x40) * 0x40 +
      d.toNat % 0x40)
    (high : ((a.toNat % 0x08 * 0x40 + b.toNat % 0x40) * 0x40 + c.toNat % 0x40) * 0x40 +
      d.toNat % 0x40 < 0x110000) :
    Encoded (((a.toNat % 0x08 * 0x40 + b.toNat % 0x40) * 0x40 + c.toNat % 0x40) * 0x40 +
      d.toNat % 0x40) [a, b, c, d] := by
  generalize shape : ((a.toNat % 0x08 * 0x40 + b.toNat % 0x40) * 0x40 + c.toNat % 0x40) * 0x40 +
    d.toNat % 0x40 = n at low high ⊢
  have encoded := @Encoded.four n low high
  rwa [@ofNat_of_toNat a _ (by omega), @ofNat_of_toNat b _ (by omega),
    @ofNat_of_toNat c _ (by omega), @ofNat_of_toNat d _ (by omega)] at encoded

/-- One character's bytes: the first one starts it, and only ASCII has no others. -/
structure Starts (n : Nat) (v : Bytes) (lead : UInt8) (rest : Bytes) : Prop where
  bytes : v = lead :: rest
  leads : isContinuation lead = false
  continues : ∀ b ∈ rest, isContinuation b = true
  ascii : rest = [] ↔ n < 0x80

theorem Encoded.exists_starts {n : Nat} {v : Bytes} (encoded : Encoded n v) :
    ∃ lead rest, Starts n v lead rest := by
  have part : ∀ n, isContinuation (UInt8.ofNat (0x80 + n % 0x40)) = true := by
    intro n
    rw [isContinuation_ofNat (by omega)]
    omega
  have lead : ∀ n, n < 256 → n / 64 ≠ 2 → isContinuation (UInt8.ofNat n) = false := by
    intro n small other
    rw [← Bool.not_eq_true, isContinuation_ofNat small]
    exact other
  cases encoded with
  | one high => exact ⟨_, _, rfl, lead _ (by omega) (by omega), List.forall_mem_nil _, by simp [high]⟩
  | two low high =>
    refine ⟨_, _, rfl, lead _ (by omega) (by omega), ?_, by simp [low]⟩
    simp only [List.forall_mem_cons]
    exact ⟨part _, List.forall_mem_nil _⟩
  | three low high =>
    refine ⟨_, _, rfl, lead _ (by omega) (by omega), ?_, by simp; omega⟩
    simp only [List.forall_mem_cons]
    exact ⟨part _, part _, List.forall_mem_nil _⟩
  | four low high =>
    refine ⟨_, _, rfl, lead _ (by omega) (by omega), ?_, by simp; omega⟩
    simp only [List.forall_mem_cons]
    exact ⟨part _, part _, part _, List.forall_mem_nil _⟩

theorem exists_starts (c : Char) : ∃ lead rest, Starts c.toNat (String.utf8EncodeChar c) lead rest :=
  (encoded_char c).exists_starts

theorem utf8_eq_nil {cs : List Char} : utf8 cs = [] ↔ cs = [] := by
  cases cs with
  | nil => simp
  | cons c cs => simp [utf8_cons]

/-- A text ends in a continuation byte unless its last character is ASCII. -/
theorem isContinuation_last {b : UInt8} (init : List Char) (c : Char)
    (last : (utf8 (init ++ [c])).getLast? = some b) : isContinuation b = true ↔ 0x80 ≤ c.toNat := by
  obtain ⟨lead, rest, starts⟩ := exists_starts c
  rw [utf8_append, utf8_singleton, starts.bytes, List.getLast?_append, List.getLast?_cons] at last
  have last := Option.some.inj last
  rw [← not_lt, ← starts.ascii]
  rcases List.eq_nil_or_concat rest with rfl | ⟨front, d, rfl⟩
  · obtain rfl : lead = b := by simpa using last
    simp [starts.leads]
  · obtain rfl : d = b := by simpa using last
    simp [starts.continues d (by simp)]

end Utf8
