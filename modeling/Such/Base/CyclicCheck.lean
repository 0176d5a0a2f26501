import Mathlib.Algebra.Polynomial.Div
import Mathlib.Algebra.Polynomial.Inductions
import Mathlib.Algebra.CharP.Two
import Mathlib.Algebra.Field.ZMod
import Mathlib.Data.Nat.Bitwise
import Mathlib.RingTheory.Coprime.Lemmas
import Mathlib.Tactic.LinearCombination

/-! Cyclic redundancy checks over a commutative ring. A message is the polynomial of its symbols,
the first symbol at the highest degree; a register that reads it holds a remainder by the
generator of the check. -/
namespace CyclicCheck
open Polynomial

section Messages
variable {R : Type*} [CommRing R]

noncomputable def message : List R → R[X]
  | [] => 0
  | a :: w => C a * X ^ w.length + message w

@[simp] theorem message_nil : message ([] : List R) = 0 := rfl

theorem message_cons (a : R) (w : List R) : message (a :: w) = C a * X ^ w.length + message w := rfl

theorem message_append (u w : List R) :
    message (u ++ w) = message u * X ^ w.length + message w := by
  induction u with
  | nil => simp
  | cons a u ih =>
    rw [List.cons_append, message_cons, ih, message_cons, List.length_append, pow_add]
    ring

@[simp] theorem message_zeros (n : Nat) : message (List.replicate n (0 : R)) = 0 := by
  induction n with
  | zero => rfl
  | succ n ih => rw [List.replicate_succ, message_cons, ih, C_0, zero_mul, zero_add]

theorem degree_message (w : List R) : (message w).degree < w.length := by
  induction w with
  | nil => simp
  | cons a w ih =>
    rw [message_cons, List.length_cons]
    refine lt_of_le_of_lt (degree_add_le _ _) (max_lt ?_ ?_)
    · exact lt_of_le_of_lt (degree_C_mul_X_pow_le _ _) (by exact_mod_cast Nat.lt_succ_self _)
    · exact ih.trans (by exact_mod_cast Nat.lt_succ_self _)

theorem coeff_message_cons (a : R) (w : List R) : (message (a :: w)).coeff w.length = a := by
  rw [message_cons, coeff_add, coeff_C_mul_X_pow, if_pos rfl,
    coeff_eq_zero_of_degree_lt (degree_message w), add_zero]

theorem message_inj {u w : List R} (size : u.length = w.length) (same : message u = message w) :
    u = w := by
  induction u generalizing w with
  | nil => exact (List.length_eq_zero_iff.mp size.symm).symm
  | cons a u ih =>
    cases w with
    | nil => cases size
    | cons b w =>
      have size' : u.length = w.length := Nat.succ.inj size
      have first : a = b := by
        rw [← coeff_message_cons a u, same, size', coeff_message_cons]
      subst first
      rw [message_cons, message_cons, size'] at same
      rw [ih size' (add_left_cancel same)]

end Messages

section Register
variable {R : Type*} [CommRing R]

/-- What a register holding `s` comes to hold when it reads `w`. -/
noncomputable def absorb (g s : R[X]) (w : List R) : R[X] :=
  (s * X ^ w.length + message w * X ^ g.natDegree) %ₘ g

variable {g s : R[X]}

theorem absorb_nil [Nontrivial R] (monic : g.Monic) (reduced : s.degree < g.degree) :
    absorb g s [] = s := by
  rw [absorb, message_nil, zero_mul, add_zero, List.length_nil, pow_zero, mul_one]
  exact (modByMonic_eq_self_iff monic).mpr reduced

/-- Reading a message block by block is reading it whole. -/
theorem absorb_absorb (monic : g.Monic) (u w : List R) :
    absorb g (absorb g s u) w = absorb g s (u ++ w) := by
  refine modByMonic_eq_of_dvd_sub monic ⟨-((s * X ^ u.length + message u * X ^ g.natDegree) /ₘ g) *
    X ^ w.length, ?_⟩
  rw [absorb, modByMonic_eq_sub_mul_div, message_append, List.length_append, pow_add]
  ring

theorem isCoprime_X_pow (unit : IsUnit (g.coeff 0)) (n : Nat) : IsCoprime g (X ^ n) := by
  obtain ⟨v, inverse⟩ := unit.exists_left_inv
  have split : divX g * X + C (g.coeff 0) = g := divX_mul_X_add g
  have cancel : C v * C (g.coeff 0) = 1 := by rw [← C_mul, inverse, C_1]
  refine IsCoprime.pow_right ⟨C v, -(C v * divX g), ?_⟩
  calc C v * g + -(C v * divX g) * X
      = C v * (divX g * X + C (g.coeff 0)) - C v * divX g * X := by
        rw [split]
        ring
    _ = C v * C (g.coeff 0) := by ring
    _ = 1 := cancel

/-- A change confined to as many consecutive symbols as the register is wide always shows. -/
theorem absorb_burst [Nontrivial R] (monic : g.Monic) (unit : IsUnit (g.coeff 0))
    {left window window' right : List R} (size : window'.length = window.length)
    (short : window.length ≤ g.natDegree)
    (same : absorb g s (left ++ window ++ right) = absorb g s (left ++ window' ++ right)) :
    window = window' := by
  refine message_inj size.symm ?_
  have difference : g ∣ (message window - message window') * X ^ (right.length + g.natDegree) := by
    rw [absorb, absorb, ← sub_eq_zero, ← sub_modByMonic, modByMonic_eq_zero_iff_dvd monic] at same
    refine Eq.mp (congrArg (g ∣ ·) ?_) same
    simp only [message_append, List.length_append, size, pow_add]
    ring
  have divides : g ∣ message window - message window' :=
    (isCoprime_X_pow unit _).dvd_of_dvd_mul_right difference
  have small : (message window - message window').degree < window.length := by
    refine lt_of_le_of_lt (degree_sub_le _ _) (max_lt (degree_message window) ?_)
    rw [← size]
    exact degree_message window'
  have wide : (window.length : WithBot ℕ) ≤ g.degree := by
    rw [degree_eq_natDegree monic.ne_zero]
    exact_mod_cast short
  by_contra differ
  exact monic.not_dvd_of_degree_lt (sub_ne_zero.mpr differ) (small.trans_le wide) divides

end Register

section Reflected

/-- The binary message that a word stands for, its lowest bit first: the shift to higher degrees is
one to lower bits. -/
def lowFirst : Nat → Nat → List (ZMod 2)
  | 0, _ => []
  | k + 1, n => (n : ZMod 2) :: lowFirst k (n / 2)

/-- The word that stands for a polynomial of degree less than `k`. -/
noncomputable def word (k : Nat) (q : (ZMod 2)[X]) : Nat :=
  Nat.ofBits fun i : Fin k => decide (q.coeff (k - 1 - i) = 1)

/-- One shift of a register with the feedback word `p`. -/
def shift (p n : Nat) : Nat := n / 2 ^^^ if n % 2 = 1 then p else 0

/-- The generator of a `k`-bit register with the feedback word `p`. -/
noncomputable def generator (k p : Nat) : (ZMod 2)[X] := X ^ k + message (lowFirst k p)

theorem cast_bit (n : Nat) : (n : ZMod 2) = if n % 2 = 1 then 1 else 0 := by
  rw [← ZMod.natCast_mod n 2]
  rcases Nat.mod_two_eq_zero_or_one n with even | odd
  · rw [even, if_neg Nat.zero_ne_one, Nat.cast_zero]
  · rw [odd, if_pos rfl, Nat.cast_one]

@[simp] theorem length_lowFirst (k n : Nat) : (lowFirst k n).length = k := by
  induction k generalizing n with
  | zero => rfl
  | succ k ih => rw [lowFirst, List.length_cons, ih]

theorem lowFirst_add (j k n : Nat) :
    lowFirst (j + k) n = lowFirst j n ++ lowFirst k (n / 2 ^ j) := by
  induction j generalizing n with
  | zero => simp [lowFirst]
  | succ j ih =>
    rw [Nat.succ_add, lowFirst, lowFirst, List.cons_append, ih, Nat.div_div_eq_div_mul, pow_succ']

@[simp] theorem lowFirst_zero (k : Nat) : lowFirst k 0 = List.replicate k 0 := by
  induction k with
  | zero => rfl
  | succ k ih => rw [lowFirst, Nat.zero_div, ih, Nat.cast_zero, List.replicate_succ]

theorem lowFirst_of_lt {j k n : Nat} (small : n < 2 ^ j) :
    lowFirst (j + k) n = lowFirst j n ++ List.replicate k 0 := by
  rw [lowFirst_add, Nat.div_eq_of_lt small, lowFirst_zero]

theorem lowFirst_inj {k a b : Nat} (ha : a < 2 ^ k) (hb : b < 2 ^ k)
    (same : lowFirst k a = lowFirst k b) : a = b := by
  induction k generalizing a b with
  | zero =>
    rw [pow_zero, Nat.lt_one_iff] at ha hb
    rw [ha, hb]
  | succ k ih =>
    rw [pow_succ] at ha hb
    obtain ⟨low, high⟩ := List.cons.inj same
    have halves : a / 2 = b / 2 := ih (by omega) (by omega) high
    have parity : a % 2 = b % 2 := (ZMod.natCast_eq_natCast_iff' a b 2).mp low
    omega

theorem message_lowFirst_xor (k a b : Nat) :
    message (lowFirst k (a ^^^ b)) = message (lowFirst k a) + message (lowFirst k b) := by
  induction k generalizing a b with
  | zero => simp [lowFirst]
  | succ k ih =>
    have low : ((a ^^^ b : Nat) : ZMod 2) = a + b := by
      rw [← Nat.cast_add, ZMod.natCast_eq_natCast_iff']
      exact Nat.xor_mod_two_eq
    simp only [lowFirst, message_cons, length_lowFirst, low, C_add, Nat.xor_div_two, ih]
    ring

theorem coeff_lowFirst {k i : Nat} (n : Nat) (within : i < k) :
    (message (lowFirst k n)).coeff (k - 1 - i) = if n.testBit i then 1 else 0 := by
  induction k generalizing i n with
  | zero => exact absurd within (Nat.not_lt_zero i)
  | succ k ih =>
    cases i with
    | zero =>
      have low := coeff_message_cons (n : ZMod 2) (lowFirst k (n / 2))
      rw [length_lowFirst] at low
      rw [lowFirst, Nat.add_sub_cancel, Nat.sub_zero, low, Nat.testBit_zero]
      simp only [cast_bit, decide_eq_true_eq]
    | succ i =>
      have other : k - (i + 1) ≠ k := by omega
      rw [lowFirst, message_cons, length_lowFirst, Nat.add_sub_cancel, coeff_add,
        coeff_C_mul_X_pow, if_neg other, zero_add, Nat.testBit_succ, Nat.sub_add_eq,
        Nat.sub_right_comm]
      exact ih _ (Nat.lt_of_succ_lt_succ within)

theorem word_message {k n : Nat} (small : n < 2 ^ k) : word k (message (lowFirst k n)) = n := by
  have bits : ∀ i : Fin k, decide ((message (lowFirst k n)).coeff (k - 1 - i) = 1) = n.testBit i := by
    intro i
    rw [coeff_lowFirst n i.isLt]
    cases n.testBit i <;> rfl
  rw [word, funext bits, Nat.ofBits_testBit, Nat.mod_eq_of_lt small]

variable {k p : Nat}

theorem degree_feedback : (message (lowFirst k p)).degree < ((X : (ZMod 2)[X]) ^ k).degree := by
  have small := degree_message (lowFirst k p)
  rwa [length_lowFirst, ← degree_X_pow (R := ZMod 2)] at small

theorem generator_monic : (generator k p).Monic := (monic_X_pow k).add_of_left degree_feedback

theorem natDegree_generator : (generator k p).natDegree = k := by
  rw [generator, natDegree_add_eq_left_of_degree_lt degree_feedback, natDegree_X_pow]

theorem shift_lt (feedback : p < 2 ^ k) {n : Nat} (small : n < 2 ^ k) : shift p n < 2 ^ k := by
  refine Nat.xor_lt_two_pow (by omega) ?_
  split
  · exact feedback
  · exact Nat.two_pow_pos k

theorem degree_generator : (generator k p).degree = k := by
  rw [degree_eq_natDegree generator_monic.ne_zero, natDegree_generator]

theorem degree_register (n : Nat) : (message (lowFirst k n)).degree < (generator k p).degree := by
  have small := degree_message (lowFirst k n)
  rwa [length_lowFirst, ← degree_generator (p := p)] at small

/-- The bit shifted out says how often the generator is taken off. -/
theorem message_shift {n : Nat} (small : n < 2 ^ (k + 1)) :
    message (lowFirst (k + 1) n) * X =
      message (lowFirst (k + 1) (shift p n)) + generator (k + 1) p * C (n : ZMod 2) := by
  have half : n / 2 < 2 ^ k := by
    rw [pow_succ] at small
    omega
  have halved : message (lowFirst (k + 1) (n / 2)) = message (lowFirst k (n / 2)) * X := by
    rw [lowFirst_of_lt half, message_append, message_zeros, List.length_replicate, pow_one, add_zero]
  have feedback : message (lowFirst (k + 1) (if n % 2 = 1 then p else 0)) =
      C (n : ZMod 2) * message (lowFirst (k + 1) p) := by
    rw [cast_bit]
    split
    · rw [C_1, one_mul]
    · rw [lowFirst_zero, message_zeros, C_0, zero_mul]
  have shifted : message (lowFirst (k + 1) n) =
      C (n : ZMod 2) * X ^ k + message (lowFirst k (n / 2)) := by
    rw [lowFirst, message_cons, length_lowFirst]
  -- over two elements taking the generator off is adding it
  have cancel := CharTwo.add_self_eq_zero (C (n : ZMod 2) * message (lowFirst (k + 1) p))
  rw [shift, message_lowFirst_xor, feedback, halved, shifted, generator]
  linear_combination -cancel

theorem absorb_zero (wide : 0 < k) {n : Nat} (small : n < 2 ^ k) :
    absorb (generator k p) (message (lowFirst k n)) [0] = message (lowFirst k (shift p n)) := by
  obtain ⟨k, rfl⟩ := Nat.exists_eq_succ_of_ne_zero wide.ne'
  have zero : message [(0 : ZMod 2)] = 0 := message_zeros 1
  rw [absorb, zero, zero_mul, add_zero, List.length_singleton, pow_one, message_shift small,
    add_modByMonic, mul_comm, mul_self_modByMonic generator_monic, add_zero]
  exact (modByMonic_eq_self_iff generator_monic).mpr (degree_register _)

/-- Shifts read zeros. -/
theorem message_shifts (feedback : p < 2 ^ k) (wide : 0 < k) (j : Nat) {n : Nat} (small : n < 2 ^ k) :
    message (lowFirst k ((shift p)^[j] n)) =
      absorb (generator k p) (message (lowFirst k n)) (List.replicate j 0) := by
  induction j generalizing n with
  | zero => exact (absorb_nil generator_monic (degree_register n)).symm
  | succ j ih =>
    rw [Function.iterate_succ_apply, ih (shift_lt feedback small), ← absorb_zero wide small,
      absorb_absorb generator_monic]
    rfl

/-- A block is read by mixing it into the low bits and shifting it out. -/
theorem message_block (feedback : p < 2 ^ k) (wide : 0 < k) {j n b : Nat} (fits : j ≤ k)
    (small : n < 2 ^ k) (block : b < 2 ^ j) :
    message (lowFirst k ((shift p)^[j] (n ^^^ b))) =
      absorb (generator k p) (message (lowFirst k n)) (lowFirst j b) := by
  have within : b < 2 ^ k := block.trans_le (Nat.pow_le_pow_right Nat.two_pos fits)
  obtain ⟨rest, rfl⟩ := Nat.exists_eq_add_of_le fits
  have padded : message (lowFirst (j + rest) b) = message (lowFirst j b) * X ^ rest := by
    rw [lowFirst_of_lt block, message_append, message_zeros, List.length_replicate, add_zero]
  rw [message_shifts feedback wide j (Nat.xor_lt_two_pow small within), message_lowFirst_xor, padded,
    absorb, absorb, message_zeros, List.length_replicate, length_lowFirst, natDegree_generator]
  congr 1
  ring

/-- The lowest bit of the generator is the highest one of the feedback word. -/
theorem generator_unit (wide : 0 < k) (high : p.testBit (k - 1) = true) :
    IsUnit ((generator k p).coeff 0) := by
  have last := coeff_lowFirst p (Nat.sub_lt wide Nat.one_pos)
  rw [Nat.sub_self, high, if_pos rfl] at last
  rw [generator, coeff_add, last, coeff_X_pow, if_neg wide.ne, zero_add]
  exact isUnit_one

end Reflected
end CyclicCheck
