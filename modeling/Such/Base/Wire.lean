import Such.Base.ByteText

/-! Little-endian numbers and length-prefixed strings, and readers that take them off
the front of a byte string. Each reader is described by the bytes it accepts: it
succeeds exactly on the encoding of what it returns, followed by the rest. -/
namespace Wire
open ByteText

section Numbers

def encodeLE : Nat → Nat → Bytes
  | 0, _ => []
  | width + 1, n => UInt8.ofNat n :: encodeLE width (n / 256)

def decodeLE : Bytes → Nat
  | [] => 0
  | b :: rest => b.toNat + 256 * decodeLE rest

@[simp] theorem length_encodeLE (width n : Nat) : (encodeLE width n).length = width := by
  induction width generalizing n with
  | zero => rfl
  | succ width ih => simp [encodeLE, ih]

theorem decodeLE_encodeLE (width n : Nat) : decodeLE (encodeLE width n) = n % 256 ^ width := by
  induction width generalizing n with
  | zero => simp [encodeLE, decodeLE, Nat.mod_one]
  | succ width ih =>
    have digit : (UInt8.ofNat n).toNat = n % 256 := by simp
    rw [encodeLE, decodeLE, ih, digit, Nat.pow_succ', Nat.mod_mul]

theorem decodeLE_encodeLE_of_lt {width n : Nat} (fits : n < 256 ^ width) :
    decodeLE (encodeLE width n) = n := by
  rw [decodeLE_encodeLE, Nat.mod_eq_of_lt fits]

theorem encodeLE_decodeLE (v : Bytes) : encodeLE v.length (decodeLE v) = v := by
  induction v with
  | nil => rfl
  | cons b v ih =>
    have small : b.toNat < 256 := b.toNat_lt
    have head : UInt8.ofNat (b.toNat + 256 * decodeLE v) = b := by
      apply UInt8.toNat_inj.mp
      simp
    have tail : (b.toNat + 256 * decodeLE v) / 256 = decodeLE v := by omega
    rw [List.length_cons, decodeLE, encodeLE, head, tail, ih]

theorem decodeLE_lt (v : Bytes) : decodeLE v < 256 ^ v.length := by
  induction v with
  | nil => simp [decodeLE]
  | cons b v ih =>
    have small : b.toNat < 256 := b.toNat_lt
    rw [decodeLE, List.length_cons, Nat.pow_succ']
    omega

end Numbers

section Readers

def takeBytes (n : Nat) (v : Bytes) : Option (Bytes × Bytes) :=
  if n ≤ v.length then some (v.take n, v.drop n) else none

def takeLE (width : Nat) (v : Bytes) : Option (Nat × Bytes) :=
  (takeBytes width v).map fun (digits, rest) => (decodeLE digits, rest)

/-- A string behind its length in four bytes, of at most `cap` bytes. -/
def takeString (cap : Nat) (v : Bytes) : Option (Bytes × Bytes) := do
  let (size, rest) ← takeLE 4 v
  if cap < size then none else takeBytes size rest

def encodeString (s : Bytes) : Bytes := encodeLE 4 s.length ++ s

theorem takeBytes_eq_some {n : Nat} {v a rest : Bytes} :
    takeBytes n v = some (a, rest) ↔ v = a ++ rest ∧ a.length = n := by
  simp only [takeBytes]
  constructor
  · intro taken
    split at taken
    · rename_i enough
      cases taken
      exact ⟨(List.take_append_drop n v).symm, List.length_take_of_le enough⟩
    · cases taken
  · rintro ⟨rfl, rfl⟩
    simp

theorem takeLE_eq_some {width n : Nat} {v rest : Bytes} :
    takeLE width v = some (n, rest) ↔ v = encodeLE width n ++ rest ∧ n < 256 ^ width := by
  simp only [takeLE, Option.map_eq_some_iff, Prod.exists, Prod.mk.injEq, takeBytes_eq_some]
  constructor
  · rintro ⟨digits, _, ⟨rfl, rfl⟩, rfl, rfl⟩
    exact ⟨by rw [encodeLE_decodeLE], decodeLE_lt digits⟩
  · rintro ⟨rfl, fits⟩
    exact ⟨encodeLE width n, rest, ⟨rfl, by simp⟩, decodeLE_encodeLE_of_lt fits, rfl⟩

theorem takeString_eq_some {cap : Nat} (small : cap < 256 ^ 4) {v s rest : Bytes} :
    takeString cap v = some (s, rest) ↔ v = encodeString s ++ rest ∧ s.length ≤ cap := by
  simp only [takeString, Option.bind_eq_bind, Option.bind_eq_some_iff, Prod.exists, takeLE_eq_some]
  constructor
  · rintro ⟨size, tail, ⟨rfl, -⟩, taken⟩
    split at taken
    · cases taken
    · rename_i fits
      obtain ⟨rfl, rfl⟩ := takeBytes_eq_some.mp taken
      exact ⟨by simp [encodeString], Nat.not_lt.mp fits⟩
  · rintro ⟨rfl, fits⟩
    refine ⟨s.length, s ++ rest, ⟨by simp [encodeString], by omega⟩, ?_⟩
    rw [if_neg (Nat.not_lt.mpr fits)]
    exact takeBytes_eq_some.mpr ⟨rfl, rfl⟩

end Readers
end Wire
