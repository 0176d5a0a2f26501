import Mathlib.Data.List.Chain
import Such.Ui.HangulQueryNfc.Coding

/-! What the composition of a text is: left to right, a pair at a time. The result has no composable
pair left and the same decomposition. The early return looks for the first two bytes of most of the
jamo, but not of the last three trailing consonants. -/
namespace Such.HangulQueryNfc
open ByteText Utf8

section Composing

/-- Composes the rest of a text onto the code point before it. -/
def composeFrom (previous : Nat) : List Nat → List Nat
  | [] => [previous]
  | c :: rest =>
    match composePair previous c with
    | some merged => composeFrom merged rest
    | none => previous :: composeFrom c rest

def composeText : List Nat → List Nat
  | [] => []
  | c :: rest => composeFrom c rest

theorem foldl_pushComposed (previous : Nat) (older ns : List Nat) :
    (ns.foldl pushComposed (previous :: older)).reverse = older.reverse ++ composeFrom previous ns := by
  induction ns generalizing previous older with
  | nil => rw [List.foldl_nil, List.reverse_cons, composeFrom]
  | cons c rest ih =>
    rw [List.foldl_cons, composeFrom, pushComposed]
    cases composePair previous c with
    | some merged => exact ih merged older
    | none =>
      dsimp only
      rw [ih, List.reverse_cons, List.append_assoc, List.singleton_append]

theorem reverse_foldl_pushComposed (ns : List Nat) :
    (ns.foldl pushComposed []).reverse = composeText ns := by
  cases ns with
  | nil => rfl
  | cons c rest => exact foldl_pushComposed c [] rest

theorem composePair_eq_some {previous c merged : Nat} (composed : composePair previous c = some merged) :
    (lBase ≤ previous ∧ previous < lBase + lCount ∧ vBase ≤ c ∧ c < vBase + vCount ∧
        merged = sBase + ((previous - lBase) * vCount + (c - vBase)) * tCount) ∨
      (sBase ≤ previous ∧ previous < sBase + sCount ∧ (previous - sBase) % tCount = 0 ∧
        tBase < c ∧ c < tBase + tCount ∧ merged = previous + (c - tBase)) := by
  simp only [composePair] at composed
  split at composed
  · rename_i syllable
    exact .inl ⟨syllable.1, syllable.2.1, syllable.2.2.1, syllable.2.2.2,
      (Option.some.inj composed).symm⟩
  · split at composed
    · rename_i tail
      exact .inr ⟨tail.1, tail.2.1, tail.2.2.1, tail.2.2.2.1, tail.2.2.2.2,
        (Option.some.inj composed).symm⟩
    · cases composed

/-- A pair composes to a syllable. -/
theorem composePair_syllable {previous c merged : Nat} (composed : composePair previous c = some merged) :
    sBase ≤ merged ∧ merged < sBase + sCount := by
  have cases := composePair_eq_some composed
  simp only [lBase, vBase, tBase, sBase, lCount, vCount, tCount, sCount] at cases ⊢
  omega

theorem composePair_syllable_none {previous c : Nat} (low : sBase ≤ c) : composePair previous c = none := by
  rw [Option.eq_none_iff_forall_ne_some]
  intro merged composed
  have cases := composePair_eq_some composed
  simp only [lBase, vBase, tBase, sBase, lCount, vCount, tCount, sCount] at low cases
  omega

/-- No two neighbours compose. -/
def Composed (ns : List Nat) : Prop := ns.IsChain (composePair · · = none)

theorem composeFrom_composed (ns : List Nat) {older previous : Nat}
    (apart : composePair older previous = none) : Composed (older :: composeFrom previous ns) := by
  induction ns generalizing older previous with
  | nil => exact .cons_cons apart (.singleton _)
  | cons c rest ih =>
    rw [composeFrom]
    cases pair : composePair previous c with
    | some merged => exact ih (composePair_syllable_none (composePair_syllable pair).1)
    | none => exact .cons_cons apart (ih pair)

theorem composeText_composed (ns : List Nat) : Composed (composeText ns) := by
  cases ns with
  | nil => exact .nil
  | cons c rest =>
    have apart : composePair 0 c = none := by
      rw [Option.eq_none_iff_forall_ne_some]
      intro merged composed
      have cases := composePair_eq_some composed
      simp only [lBase, sBase] at cases
      omega
    exact (composeFrom_composed rest apart).tail

theorem length_composeFrom_le (previous : Nat) (ns : List Nat) :
    (composeFrom previous ns).length ≤ ns.length + 1 := by
  induction ns generalizing previous with
  | nil => exact Nat.le_refl _
  | cons c rest ih =>
    rw [composeFrom]
    cases composePair previous c with
    | some merged => exact (ih merged).trans (by simp)
    | none => exact Nat.succ_le_succ (ih c)

theorem composeFrom_eq_self_iff {previous : Nat} {ns : List Nat} :
    composeFrom previous ns = previous :: ns ↔ Composed (previous :: ns) := by
  induction ns generalizing previous with
  | nil => exact iff_of_true rfl (.singleton _)
  | cons c rest ih =>
    rw [composeFrom, Composed, List.isChain_cons_cons]
    cases pair : composePair previous c with
    | some merged =>
      refine iff_of_false (fun same => ?_) (fun composed => nomatch composed.1)
      -- The merged pair makes the text shorter.
      have shorter := length_composeFrom_le merged rest
      dsimp only at same
      rw [same] at shorter
      simp only [List.length_cons] at shorter
      omega
    | none => simpa [Composed] using @ih c

theorem composeText_eq_self_iff {ns : List Nat} : composeText ns = ns ↔ Composed ns := by
  cases ns with
  | nil => exact iff_of_true rfl .nil
  | cons c rest => exact composeFrom_eq_self_iff

theorem composeText_composeText (ns : List Nat) : composeText (composeText ns) = composeText ns :=
  composeText_eq_self_iff.mpr (composeText_composed ns)

theorem composeFrom_isScalar {previous : Nat} {ns : List Nat} (scalar : IsScalar previous)
    (scalars : ∀ n ∈ ns, IsScalar n) : ∀ n ∈ composeFrom previous ns, IsScalar n := by
  induction ns generalizing previous with
  | nil => simpa [composeFrom] using scalar
  | cons c rest ih =>
    rw [List.forall_mem_cons] at scalars
    rw [composeFrom]
    cases pair : composePair previous c with
    | some merged =>
      have syllable := composePair_syllable pair
      refine ih (.inl ?_) scalars.2
      simp only [sBase, sCount, lCount, vCount, tCount] at syllable
      omega
    | none => exact List.forall_mem_cons.mpr ⟨scalar, ih scalars.1 scalars.2⟩

theorem exists_chars {ns : List Nat} (scalars : ∀ n ∈ ns, IsScalar n) :
    ∃ cs : List Char, cs.map Char.toNat = ns := by
  induction ns with
  | nil => exact ⟨[], rfl⟩
  | cons n ns ih =>
    rw [List.forall_mem_cons] at scalars
    obtain ⟨c, rfl⟩ := exists_char scalars.1
    obtain ⟨cs, rfl⟩ := ih scalars.2
    exact ⟨c :: cs, rfl⟩

theorem exists_composed (cs : List Char) :
    ∃ ds : List Char, ds.map Char.toNat = composeText (cs.map Char.toNat) := by
  apply exists_chars
  cases cs with
  | nil => exact List.forall_mem_nil _
  | cons c cs =>
    refine composeFrom_isScalar (isScalar_toNat c) ?_
    simp only [List.forall_mem_map]
    exact fun d _ => isScalar_toNat d

end Composing

section Returning

def hasJamoPair (input : Bytes) : Bool :=
  occursIn [0xE1, 0x84] input || occursIn [0xE1, 0x85] input || occursIn [0xE1, 0x86] input

/-- What the composition of any bytes is to be. -/
structure ComposesText (input output : Bytes) : Prop where
  text : ∀ cs : List Char, input = utf8 cs → ∃ ds : List Char,
    ds.map Char.toNat = composeText (cs.map Char.toNat) ∧ output = utf8 ds
  other : (¬ ∃ cs, input = utf8 cs) → output = input

theorem composeHangulQueryNfc_of_pair {input : Bytes} (pair : hasJamoPair input = true) :
    composeHangulQueryNfc input =
      match decode input with
      | none => input
      | some decoded => (composeText decoded).flatMap appendUtf8 := by
  simp only [composeHangulQueryNfc, ← reverse_foldl_pushComposed]
  apply if_neg
  intro early
  simp only [Bool.and_eq_true, Bool.not_eq_true'] at early
  rw [hasJamoPair, early.1.1, early.1.2, early.2] at pair
  cases pair

theorem composeHangulQueryNfc_of_no_pair {input : Bytes} (pair : hasJamoPair input = false) :
    composeHangulQueryNfc input = input := by
  simp only [composeHangulQueryNfc]
  rw [if_pos]
  simpa [hasJamoPair] using pair

theorem composeHangulQueryNfc_text {cs ds : List Char} (pair : hasJamoPair (utf8 cs) = true)
    (composed : ds.map Char.toNat = composeText (cs.map Char.toNat)) :
    composeHangulQueryNfc (utf8 cs) = utf8 ds := by
  rw [composeHangulQueryNfc_of_pair pair, decode_utf8]
  dsimp only
  rw [← composed, flatMap_appendUtf8]

theorem composeHangulQueryNfc_other {input : Bytes} (other : ¬ ∃ cs, input = utf8 cs) :
    composeHangulQueryNfc input = input := by
  cases pair : hasJamoPair input with
  | false => exact composeHangulQueryNfc_of_no_pair pair
  | true => rw [composeHangulQueryNfc_of_pair pair, decode_eq_none_iff.mpr other]

/-- The three byte pairs are those of the code points from U+1100 up to U+11BF. -/
theorem hasJamoPair_of_mem {cs : List Char} {c : Char} (member : c ∈ cs) (low : 0x1100 ≤ c.toNat)
    (high : c.toNat < 0x11C0) : hasJamoPair (utf8 cs) = true := by
  obtain ⟨before, after, rfl⟩ := List.append_of_mem member
  have bytes := appendUtf8_toNat c
  have lead : 0xE0 + c.toNat / 0x1000 = 0xE1 := by omega
  rw [appendUtf8, if_neg (by omega), if_neg (by omega), if_pos (by omega), lead] at bytes
  have within : ∀ second, 0x80 + c.toNat / 0x40 % 0x40 = second →
      occursIn [0xE1, UInt8.ofNat second] (utf8 (before ++ c :: after)) = true := by
    rintro second rfl
    rw [occursIn, decide_eq_true_eq, utf8_append, utf8_cons, ← bytes]
    exact ⟨utf8 before, UInt8.ofNat (0x80 + c.toNat % 0x40) :: utf8 after, by simp⟩
  obtain second | second | second : 0x80 + c.toNat / 0x40 % 0x40 = 0x84 ∨
      0x80 + c.toNat / 0x40 % 0x40 = 0x85 ∨ 0x80 + c.toNat / 0x40 % 0x40 = 0x86 := by omega
  all_goals simp only [hasJamoPair, Bool.or_eq_true]
  · exact .inl (.inl (within _ second))
  · exact .inl (.inr (within _ second))
  · exact .inr (within _ second)

/-- A syllable without a trailing consonant, then one of the last three trailing consonants. -/
def LateTail (previous c : Nat) : Prop :=
  (sBase ≤ previous ∧ previous < sBase + sCount ∧ (previous - sBase) % tCount = 0) ∧
    0x11C0 ≤ c ∧ c ≤ 0x11C2

theorem composePair_eq_none_iff {previous c : Nat}
    (outside : ∀ n ∈ [previous, c], ¬ (0x1100 ≤ n ∧ n < 0x11C0)) :
    composePair previous c = none ↔ ¬ LateTail previous c := by
  simp only [List.forall_mem_cons, List.not_mem_nil] at outside
  obtain ⟨first, second, -⟩ := outside
  constructor
  · rintro apart ⟨syllable, low, high⟩
    have lower : ¬ (lBase ≤ previous ∧ previous < lBase + lCount ∧ vBase ≤ c ∧ c < vBase + vCount) := by
      simp only [vBase, vCount]
      omega
    have tail : tBase < c ∧ c < tBase + tCount := by
      simp only [tBase, tCount]
      omega
    rw [composePair, if_neg lower, if_pos ⟨syllable.1, syllable.2.1, syllable.2.2, tail⟩] at apart
    cases apart
  · intro early
    rw [Option.eq_none_iff_forall_ne_some]
    intro merged composed
    apply early
    have cases := composePair_eq_some composed
    simp only [LateTail]
    simp only [lBase, vBase, tBase, lCount, vCount, tCount] at cases ⊢
    omega

/-- The early return is not taken, or not for a text with such a pair. -/
def Covered (input : Bytes) : Prop :=
  hasJamoPair input = true ∨
    ∀ cs : List Char, input = utf8 cs → (cs.map Char.toNat).IsChain (¬ LateTail · ·)

/-- A text without the three byte pairs is composed already unless it has a late tail. -/
theorem composed_iff_of_no_pair {cs : List Char} (pair : hasJamoPair (utf8 cs) = false) :
    Composed (cs.map Char.toNat) ↔ (cs.map Char.toNat).IsChain (¬ LateTail · ·) := by
  have outside : ∀ n ∈ cs.map Char.toNat, ¬ (0x1100 ≤ n ∧ n < 0x11C0) := by
    simp only [List.forall_mem_map]
    rintro c member ⟨low, high⟩
    rw [hasJamoPair_of_mem member low high] at pair
    cases pair
  generalize cs.map Char.toNat = ns at outside
  induction ns with
  | nil => exact iff_of_true .nil .nil
  | cons a ns ih =>
    cases ns with
    | nil => exact iff_of_true (.singleton _) (.singleton _)
    | cons b ns =>
      rw [List.forall_mem_cons] at outside
      have here := @composePair_eq_none_iff a b
        (List.forall_mem_cons.mpr ⟨outside.1, List.forall_mem_singleton.mpr (outside.2 b (by simp))⟩)
      rw [Composed, List.isChain_cons_cons, List.isChain_cons_cons, here]
      exact and_congr_right fun _ => ih outside.2

/-- The result is the composed text exactly for the inputs the early return covers. -/
theorem composeHangulQueryNfc_composes_iff (input : Bytes) :
    ComposesText input (composeHangulQueryNfc input) ↔ Covered input := by
  cases pair : hasJamoPair input with
  | true =>
    refine iff_of_true ⟨?_, composeHangulQueryNfc_other⟩ (.inl pair)
    rintro cs rfl
    obtain ⟨ds, composed⟩ := exists_composed cs
    exact ⟨ds, composed, composeHangulQueryNfc_text pair composed⟩
  | false =>
    rw [composeHangulQueryNfc_of_no_pair pair, Covered, pair]
    simp only [Bool.false_eq_true, false_or]
    constructor
    · rintro ⟨text, -⟩ cs rfl
      obtain ⟨ds, composed, same⟩ := text cs rfl
      rw [← utf8_injective same] at composed
      exact (composed_iff_of_no_pair pair).mp (composeText_eq_self_iff.mp composed.symm)
    · intro early
      refine ⟨?_, fun _ => rfl⟩
      rintro cs rfl
      have composed := (composed_iff_of_no_pair pair).mpr (early cs rfl)
      exact ⟨cs, (composeText_eq_self_iff.mpr composed).symm, rfl⟩

/-- A syllable and a trailing consonant beyond the three byte pairs stay apart. -/
theorem late_tail_not_composed :
    ¬ ∀ input, ComposesText input (composeHangulQueryNfc input) := by
  intro every
  have covered := (composeHangulQueryNfc_composes_iff _).mp
    (every (utf8 [Char.ofNat 0xAC00, Char.ofNat 0x11C0]))
  rcases covered with pair | early
  · revert pair
    decide
  · have apart := early _ rfl
    simp only [List.map_cons, List.map_nil, List.isChain_cons_cons] at apart
    exact apart.1 ⟨by decide, by decide, by decide⟩

end Returning

section Decomposing

/-- The jamo of a syllable; anything else stands for itself. -/
def decomposeSyllable (c : Nat) : List Nat :=
  if sBase ≤ c ∧ c < sBase + sCount then
    [lBase + (c - sBase) / (vCount * tCount), vBase + (c - sBase) % (vCount * tCount) / tCount] ++
      if (c - sBase) % tCount = 0 then [] else [tBase + (c - sBase) % tCount]
  else [c]

def decomposition (cs : List Char) : List Nat := (cs.map Char.toNat).flatMap decomposeSyllable

theorem decomposeSyllable_index {l v t : Nat} (hl : l < lCount) (hv : v < vCount) (ht : t < tCount) :
    decomposeSyllable (sBase + ((l * vCount + v) * tCount + t)) =
      [lBase + l, vBase + v] ++ if t = 0 then [] else [tBase + t] := by
  simp only [lCount, vCount, tCount] at hl hv ht
  have index : sBase + ((l * vCount + v) * tCount + t) - sBase = (l * vCount + v) * tCount + t :=
    Nat.add_sub_cancel_left ..
  have range : (l * vCount + v) * tCount + t < sCount := by
    simp only [lCount, vCount, tCount, sCount]
    omega
  have first : ((l * vCount + v) * tCount + t) / (vCount * tCount) = l := by
    simp only [vCount, tCount]
    omega
  have second : ((l * vCount + v) * tCount + t) % (vCount * tCount) / tCount = v := by
    simp only [vCount, tCount]
    omega
  have third : ((l * vCount + v) * tCount + t) % tCount = t := by
    simp only [vCount, tCount]
    omega
  rw [decomposeSyllable, if_pos ⟨Nat.le_add_right _ _, Nat.add_lt_add_left range _⟩, index, first,
    second, third]

theorem decomposeSyllable_below {c : Nat} (below : c < sBase) : decomposeSyllable c = [c] := by
  rw [decomposeSyllable, if_neg]
  omega

/-- A composed pair has the jamo of both. -/
theorem decomposeSyllable_composePair {previous c merged : Nat}
    (composed : composePair previous c = some merged) :
    decomposeSyllable merged = decomposeSyllable previous ++ decomposeSyllable c := by
  have tails : tBase + tCount < sBase := by decide
  rcases composePair_eq_some composed with
    ⟨low, high, low', high', same⟩ | ⟨low, high, plain, low', high', same⟩
  · have whole := @decomposeSyllable_index (previous - lBase) (c - vBase) 0 (by omega) (by omega)
      (by decide)
    have lower : lBase + lCount < sBase ∧ vBase + vCount < sBase := by decide
    rw [decomposeSyllable_below (by omega : previous < sBase),
      decomposeSyllable_below (by omega : c < sBase)]
    rw [Nat.add_zero, if_pos rfl, List.append_nil, Nat.add_sub_of_le low, Nat.add_sub_of_le low'] at whole
    rw [same]
    exact whole
  · obtain ⟨l, v, hl, hv, shape⟩ : ∃ l v, l < lCount ∧ v < vCount ∧
        previous = sBase + (l * vCount + v) * tCount := by
      refine ⟨(previous - sBase) / (vCount * tCount), (previous - sBase) % (vCount * tCount) / tCount, ?_⟩
      simp only [sBase, sCount, lCount, vCount, tCount] at low high plain ⊢
      omega
    have bare := @decomposeSyllable_index l v 0 hl hv (by decide)
    have whole := @decomposeSyllable_index l v (c - tBase) hl hv (by omega)
    rw [Nat.add_zero, if_pos rfl, List.append_nil] at bare
    rw [if_neg (by omega), Nat.add_sub_of_le low'.le, ← Nat.add_assoc] at whole
    rw [same, decomposeSyllable_below (by omega : c < sBase), shape, bare, whole]

theorem flatMap_composeFrom (previous : Nat) (ns : List Nat) :
    (composeFrom previous ns).flatMap decomposeSyllable =
      decomposeSyllable previous ++ ns.flatMap decomposeSyllable := by
  induction ns generalizing previous with
  | nil => simp [composeFrom]
  | cons c rest ih =>
    rw [composeFrom, List.flatMap_cons]
    cases pair : composePair previous c with
    | some merged =>
      dsimp only
      rw [ih, decomposeSyllable_composePair pair, List.append_assoc]
    | none =>
      dsimp only
      rw [List.flatMap_cons, ih]

theorem flatMap_composeText (ns : List Nat) :
    (composeText ns).flatMap decomposeSyllable = ns.flatMap decomposeSyllable := by
  cases ns with
  | nil => rfl
  | cons c rest => exact flatMap_composeFrom c rest

/-- On a text the result is a fixed point with the same decomposition; other bytes stay. -/
theorem composeHangulQueryNfc_lossless :
    (∀ cs : List Char,
      composeHangulQueryNfc (composeHangulQueryNfc (utf8 cs)) = composeHangulQueryNfc (utf8 cs) ∧
        ∃ ds, composeHangulQueryNfc (utf8 cs) = utf8 ds ∧ decomposition ds = decomposition cs) ∧
      ∀ input, (¬ ∃ cs, input = utf8 cs) → composeHangulQueryNfc input = input := by
  refine ⟨fun cs => ?_, fun input => composeHangulQueryNfc_other⟩
  cases pair : hasJamoPair (utf8 cs) with
  | false =>
    have same := composeHangulQueryNfc_of_no_pair pair
    exact ⟨congrArg composeHangulQueryNfc same, cs, same, rfl⟩
  | true =>
    obtain ⟨ds, composed⟩ := exists_composed cs
    have result := composeHangulQueryNfc_text pair composed
    constructor
    · rw [result]
      cases again : hasJamoPair (utf8 ds) with
      | false => exact composeHangulQueryNfc_of_no_pair again
      | true =>
        apply composeHangulQueryNfc_text again
        rw [composed, composeText_composeText]
    · refine ⟨ds, result, ?_⟩
      rw [decomposition, composed, flatMap_composeText]
      rfl

end Decomposing
end Such.HangulQueryNfc
