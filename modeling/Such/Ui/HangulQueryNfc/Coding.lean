import Such.Base.Utf8.Syntax
import Such.Ui.HangulQueryNfc

/-! The decoder and the encoder against UTF-8: what is decoded is the text of the characters that
come out, and every such text is decoded. -/
namespace Such.HangulQueryNfc
open ByteText Utf8

section Encoding

theorem appendUtf8_of_encoded {n : Nat} {v : Bytes} (encoded : Encoded n v) : appendUtf8 n = v := by
  simp only [appendUtf8]
  cases encoded with
  | one high => rw [if_pos high]
  | two low high => rw [if_neg (by omega), if_pos high]
  | three low high => rw [if_neg (by omega), if_neg (by omega), if_pos high]
  | four low high => rw [if_neg (by omega), if_neg (by omega), if_neg (by omega)]

theorem appendUtf8_toNat (c : Char) : appendUtf8 c.toNat = String.utf8EncodeChar c :=
  appendUtf8_of_encoded (encoded_char c)

theorem flatMap_appendUtf8 (cs : List Char) : (cs.map Char.toNat).flatMap appendUtf8 = utf8 cs := by
  rw [List.flatMap_map, utf8]
  congr 1
  funext c
  exact appendUtf8_toNat c

end Encoding

section DecodingOne
variable {value length payload : Nat} {lead : UInt8} {input rest left : Bytes}

theorem continuation_part (count m value : Nat) (rest : Bytes) :
    continuation (count + 1) value (UInt8.ofNat (0x80 + m % 0x40) :: rest) =
      continuation count (value * 0x40 + m % 0x40) rest := by
  have byte : (UInt8.ofNat (0x80 + m % 0x40)).toNat = 0x80 + m % 0x40 :=
    UInt8.toNat_ofNat_of_lt' (show 0x80 + m % 0x40 < 256 by omega)
  rw [continuation, byte, if_neg (by omega)]
  congr 2
  omega

theorem continuation_succ {count : Nat} (shifted : continuation (count + 1) value rest = some (length, left)) :
    ∃ b tail, rest = b :: tail ∧ b.toNat / 0x40 = 2 ∧
      continuation count (value * 0x40 + b.toNat % 0x40) tail = some (length, left) := by
  cases rest with
  | nil => cases shifted
  | cons b tail =>
    rw [continuation] at shifted
    split at shifted
    · cases shifted
    · rename_i part
      exact ⟨b, tail, rfl, not_not.mp part, shifted⟩

theorem decodeOne_of_lead (high : 0x80 ≤ lead.toNat) (announced : leadByte lead.toNat = some (length, payload))
    (enough : length ≤ rest.length + 1) (shifted : continuation (length - 1) payload rest = some (value, left))
    (valid : validScalar length value = true) : decodeOne (lead :: rest) = some (value, left) := by
  rw [decodeOne, if_neg (by omega), announced]
  dsimp only
  rw [if_neg (by omega), shifted]
  dsimp only
  rw [valid, if_pos rfl]

theorem decodeOne_encoded {n : Nat} {v : Bytes} (scalar : IsScalar n) (encoded : Encoded n v)
    (rest : Bytes) : decodeOne (v ++ rest) = some (n, rest) := by
  have byte : ∀ m, m < 256 → (UInt8.ofNat m).toNat = m := fun _ => UInt8.toNat_ofNat_of_lt'
  simp only [IsScalar] at scalar
  cases encoded with
  | one high =>
    have lead := byte n (by omega)
    simp only [List.cons_append, List.nil_append, decodeOne, lead, if_pos high]
  | two low high =>
    have lead := byte (0xC0 + n / 0x40) (by omega)
    refine @decodeOne_of_lead n 2 (n / 0x40) _ _ _ (by omega) ?_ (by simp) ?_ ?_
    · rw [lead, leadByte, if_pos (by omega)]
      congr 2
      omega
    · refine (continuation_part 0 n _ rest).trans ?_
      rw [continuation]
      congr 2
      omega
    · simp [validScalar]
      omega
  | three low high =>
    have lead := byte (0xE0 + n / 0x1000) (by omega)
    refine @decodeOne_of_lead n 3 (n / 0x1000) _ _ _ (by omega) ?_ (by simp) ?_ ?_
    · rw [lead, leadByte, if_neg (by omega), if_pos (by omega)]
      congr 2
      omega
    · refine (continuation_part 1 (n / 0x40) _ _).trans ((continuation_part 0 n _ rest).trans ?_)
      rw [continuation]
      congr 2
      omega
    · simp [validScalar]
      omega
  | four low high =>
    have lead := byte (0xF0 + n / 0x40000) (by omega)
    refine @decodeOne_of_lead n 4 (n / 0x40000) _ _ _ (by omega) ?_ (by simp) ?_ ?_
    · rw [lead, leadByte, if_neg (by omega), if_neg (by omega), if_pos (by omega)]
      congr 2
      omega
    · refine (continuation_part 2 (n / 0x1000) _ _).trans ?_
      refine (continuation_part 1 (n / 0x40) _ _).trans ((continuation_part 0 n _ rest).trans ?_)
      rw [continuation]
      congr 2
      omega
    · simp [validScalar]
      omega

theorem decodeOne_cons_some {n : Nat} (decoded : decodeOne (lead :: input) = some (n, rest)) :
    (lead.toNat < 0x80 ∧ n = lead.toNat ∧ rest = input) ∨
      ∃ length payload, leadByte lead.toNat = some (length, payload) ∧
        continuation (length - 1) payload input = some (n, rest) ∧ validScalar length n = true := by
  rw [decodeOne] at decoded
  split at decoded
  · cases decoded
    exact .inl ⟨by assumption, rfl, rfl⟩
  · split at decoded
    · cases decoded
    · split at decoded
      · cases decoded
      · split at decoded
        · cases decoded
        · split at decoded
          · cases decoded
            exact .inr ⟨_, _, by assumption, by assumption, by assumption⟩
          · cases decoded

/-- What is decoded is the encoding of a scalar value. -/
theorem decodeOne_some {n : Nat} (decoded : decodeOne input = some (n, rest)) :
    IsScalar n ∧ ∃ v, Encoded n v ∧ input = v ++ rest := by
  cases input with
  | nil => cases decoded
  | cons lead tail =>
    obtain ⟨ascii, rfl, rfl⟩ | ⟨length, payload, announced, shifted, valid⟩ := decodeOne_cons_some decoded
    · refine ⟨.inl (by omega), [lead], ?_, rfl⟩
      have encoded := Encoded.one ascii
      rwa [UInt8.ofNat_toNat] at encoded
    · simp only [validScalar, Bool.not_eq_true', decide_eq_false_iff_not, not_or, not_and,
        not_lt] at valid
      obtain ⟨-, three, four, surrogate, limit⟩ := valid
      refine ⟨by simp only [IsScalar]; omega, ?_⟩
      simp only [leadByte] at announced
      split at announced
      · rename_i range
        cases announced
        obtain ⟨b, _, rfl, part, last⟩ := continuation_succ shifted
        cases last
        exact ⟨[lead, b], encoded_two range part, rfl⟩
      · split at announced
        · rename_i range
          cases announced
          obtain ⟨b, _, rfl, part, shifted⟩ := continuation_succ shifted
          obtain ⟨c, _, rfl, part', last⟩ := continuation_succ shifted
          cases last
          exact ⟨[lead, b, c], encoded_three range part part' (three rfl), rfl⟩
        · split at announced
          · rename_i range
            cases announced
            obtain ⟨b, _, rfl, part, shifted⟩ := continuation_succ shifted
            obtain ⟨c, _, rfl, part', shifted⟩ := continuation_succ shifted
            obtain ⟨d, _, rfl, part'', last⟩ := continuation_succ shifted
            cases last
            exact ⟨[lead, b, c, d], encoded_four range part part' part'' (four rfl) (by omega), rfl⟩
          · cases announced

end DecodingOne

section Decoding

theorem decodeFrom_cons (fuel : Nat) (lead : UInt8) (rest : Bytes) :
    decodeFrom (fuel + 1) (lead :: rest) =
      (decodeOne (lead :: rest)).bind fun one => (decodeFrom fuel one.2).map (one.1 :: ·) := by
  rw [decodeFrom]
  · cases decodeOne (lead :: rest) <;> rfl
  · exact List.cons_ne_nil _ _

theorem decodeFrom_utf8 (cs : List Char) {fuel : Nat} (enough : (utf8 cs).length ≤ fuel) :
    decodeFrom fuel (utf8 cs) = some (cs.map Char.toNat) := by
  induction cs generalizing fuel with
  | nil => cases fuel <;> rfl
  | cons c cs ih =>
    obtain ⟨lead, rest, starts⟩ := exists_starts c
    have one := decodeOne_encoded (isScalar_toNat c) (encoded_char c) (utf8 cs)
    rw [utf8_cons] at enough ⊢
    rw [starts.bytes] at one enough ⊢
    simp only [List.cons_append, List.length_cons, List.length_append] at enough
    obtain ⟨fuel, rfl⟩ : ∃ k, fuel = k + 1 := ⟨fuel - 1, by omega⟩
    rw [List.cons_append] at one ⊢
    rw [decodeFrom_cons, one, Option.bind_some, ih (by omega)]
    rfl

theorem decode_utf8 (cs : List Char) : decode (utf8 cs) = some (cs.map Char.toNat) :=
  decodeFrom_utf8 cs (Nat.le_refl _)

theorem decodeFrom_some {fuel : Nat} {input : Bytes} {ns : List Nat}
    (decoded : decodeFrom fuel input = some ns) : ∃ cs : List Char, ns = cs.map Char.toNat ∧ input = utf8 cs := by
  induction fuel generalizing input ns with
  | zero =>
    cases input with
    | nil =>
      cases decoded
      exact ⟨[], rfl, rfl⟩
    | cons b input => cases decoded
  | succ fuel ih =>
    cases input with
    | nil =>
      cases decoded
      exact ⟨[], rfl, rfl⟩
    | cons b input =>
      rw [decodeFrom_cons] at decoded
      obtain ⟨⟨n, rest⟩, one, onward⟩ := Option.bind_eq_some_iff.mp decoded
      obtain ⟨ms, others, rfl⟩ := Option.map_eq_some_iff.mp onward
      obtain ⟨cs, rfl, rfl⟩ := ih others
      obtain ⟨scalar, v, encoded, whole⟩ := decodeOne_some one
      obtain ⟨c, rfl⟩ := exists_char scalar
      refine ⟨c :: cs, rfl, ?_⟩
      rw [whole, utf8_cons, ← appendUtf8_of_encoded encoded, appendUtf8_toNat]

/-- The decoder accepts exactly the texts, and yields their characters. -/
theorem decode_eq_some_iff {input : Bytes} {ns : List Nat} :
    decode input = some ns ↔ ∃ cs : List Char, ns = cs.map Char.toNat ∧ input = utf8 cs := by
  constructor
  · exact decodeFrom_some
  · rintro ⟨cs, rfl, rfl⟩
    exact decode_utf8 cs

theorem decode_eq_none_iff {input : Bytes} : decode input = none ↔ ¬ ∃ cs, input = utf8 cs := by
  rw [Option.eq_none_iff_forall_ne_some]
  constructor
  · rintro refused ⟨cs, rfl⟩
    exact refused _ (decode_utf8 cs)
  · intro other ns decoded
    obtain ⟨cs, -, text⟩ := decode_eq_some_iff.mp decoded
    exact other ⟨cs, text⟩

theorem utf8_injective : Function.Injective utf8 := by
  intro cs ds same
  have decoded := decode_utf8 cs
  rw [same, decode_utf8 ds] at decoded
  exact List.map_injective_iff.mpr (fun _ _ => Char.toNat_inj.mp) (Option.some.inj decoded).symm

theorem decode_eq_some_iff_spells {input : Bytes} {ns : List Nat} :
    decode input = some ns ↔ Spells ns input := by
  rw [decode_eq_some_iff, spells_iff]

/-- The decoder accepts exactly well-formed UTF-8; its output is the one sequence of code points
the input spells, and encodes back to the input. -/
theorem decode_wellFormed (input : Bytes) :
    ((decode input).isSome = true ↔ WellFormed input) ∧
      ∀ ns, decode input = some ns →
        (∀ ms, Spells ms input ↔ ms = ns) ∧ ns.flatMap appendUtf8 = input := by
  refine ⟨?_, ?_⟩
  · rw [Option.isSome_iff_exists, wellFormed_iff]
    exact exists_congr fun ns => decode_eq_some_iff_spells
  · intro ns decoded
    refine ⟨?_, ?_⟩
    · intro ms
      rw [← decode_eq_some_iff_spells, decoded, Option.some.injEq, eq_comm]
    · obtain ⟨cs, rfl, rfl⟩ := decode_eq_some_iff.mp decoded
      exact flatMap_appendUtf8 cs

end Decoding
end Such.HangulQueryNfc
