import Mathlib.Data.List.Lex
import Mathlib.Order.Basic
import Such.Runtime.SearchableFiles

/-! The suffix table as a set: the binary search finds exactly the folded suffixes that
are in it. -/
namespace Such.SearchableFiles
open ByteText

/-- The key the table is sorted by, with bytes as signed numbers. -/
def suffixKey (v : Bytes) : List Int := v.map fun b => b.toInt8.toInt

theorem charLt_iff (a b : UInt8) : charLt a b = true ↔ a.toInt8.toInt < b.toInt8.toInt := by
  simp only [charLt]
  rw [decide_eq_true_iff, Int8.lt_iff_toInt_lt]

theorem toInt_injective {a b : UInt8} (same : a.toInt8.toInt = b.toInt8.toInt) : a = b := by
  have signed := congrArg Int8.toUInt8 (Int8.toInt_inj.mp same)
  rwa [UInt8.toUInt8_toInt8, UInt8.toUInt8_toInt8] at signed

/-- The comparison is positive exactly when the entry comes before the folded suffix. -/
theorem compareSuffix_pos_iff (extension candidate : Bytes) :
    0 < compareSuffix extension candidate ↔ suffixKey candidate < suffixKey (lower extension) := by
  induction extension generalizing candidate with
  | nil =>
    cases candidate with
    | nil => decide
    | cons b candidate =>
      simp only [compareSuffix]
      simp [suffixKey, lower]
  | cons a extension ih =>
    cases candidate with
    | nil =>
      simp only [compareSuffix]
      simp [suffixKey, lower]
    | cons b candidate =>
      simp only [compareSuffix]
      have keys : suffixKey (b :: candidate) < suffixKey (lower (a :: extension)) ↔
          b.toInt8.toInt < (toLower a).toInt8.toInt ∨
            b.toInt8.toInt = (toLower a).toInt8.toInt ∧
              suffixKey candidate < suffixKey (lower extension) := by
        simp only [suffixKey, lower, List.map_cons, List.cons_lt_cons_iff]
      rw [keys]
      split
      · rename_i differ
        have apart : b.toInt8.toInt ≠ (toLower a).toInt8.toInt :=
          fun same => differ (toInt_injective same).symm
        split
        · rename_i below
          rw [charLt_iff] at below
          omega
        · rename_i above
          rw [charLt_iff] at above
          omega
      · rename_i same
        rw [not_not] at same
        rw [same, ih]
        simp only [lt_self_iff_false, true_and, false_or]

/-- The search stops at the first entry that does not come before the suffix. -/
theorem lowerBound_spec (table : List Bytes) (extension : Bytes) (fuel low high : Nat)
    (enough : high - low ≤ fuel) (ordered : low ≤ high)
    (sorted : ∀ i j, i ≤ j → j < high → 0 < compareSuffix extension (table.getD j []) →
      0 < compareSuffix extension (table.getD i [])) :
    low ≤ lowerBound table extension fuel low high ∧
      lowerBound table extension fuel low high ≤ high ∧
      (∀ i, low ≤ i → i < lowerBound table extension fuel low high →
        0 < compareSuffix extension (table.getD i [])) ∧
      ∀ i, lowerBound table extension fuel low high ≤ i → i < high →
        ¬ 0 < compareSuffix extension (table.getD i []) := by
  induction fuel generalizing low high with
  | zero =>
    have met : low = high := by omega
    subst met
    simp only [lowerBound]
    exact ⟨Nat.le_refl low, Nat.le_refl low, fun i _ _ => by omega, fun i _ _ => by omega⟩
  | succ fuel ih =>
    unfold lowerBound
    split
    · rename_i gap
      dsimp only
      split
      · rename_i before
        obtain ⟨above, below, passed, rest⟩ := ih (low + (high - low) / 2 + 1) high (by omega)
          (by omega) sorted
        refine ⟨by omega, below, ?_, rest⟩
        intro i start stop
        by_cases early : i ≤ low + (high - low) / 2
        · exact sorted i _ early (by omega) before
        · exact passed i (by omega) stop
      · rename_i reached
        obtain ⟨above, below, passed, rest⟩ := ih low (low + (high - low) / 2) (by omega) (by omega)
          fun i j order inside => sorted i j order (by omega)
        refine ⟨above, by omega, passed, ?_⟩
        intro i start stop later
        by_cases early : i < low + (high - low) / 2
        · exact rest i start early later
        · exact reached (sorted _ i (by omega) stop later)
    · rename_i closed
      exact ⟨Nat.le_refl low, ordered, fun i _ _ => by omega, fun i _ _ => by omega⟩

theorem kAllowedExtensions_sorted : (kAllowedExtensions.map suffixKey).Pairwise (· < ·) := by
  rw [← List.isChain_iff_pairwise]
  decide +kernel

theorem kAllowedExtensions_lower : ∀ entry ∈ kAllowedExtensions, lower entry = entry := by
  decide +kernel

/-- What the binary search answers for a suffix. -/
def allowedSuffix (extension : Bytes) : Bool :=
  match kAllowedExtensions[lowerBound kAllowedExtensions extension kAllowedExtensions.length 0
      kAllowedExtensions.length]? with
  | none => false
  | some entry => equalsAsciiCi extension entry

theorem suffixKey_lt_of_lt {i j : Nat} (order : i < j) (inside : j < kAllowedExtensions.length) :
    suffixKey (kAllowedExtensions.getD i []) < suffixKey (kAllowedExtensions.getD j []) := by
  have sorted := List.pairwise_iff_getElem.mp kAllowedExtensions_sorted i j
    (by rw [List.length_map]; omega) (by rw [List.length_map]; exact inside) order
  simpa only [List.getElem_map, List.getD_eq_getElem?_getD, List.getElem?_eq_getElem inside,
    List.getElem?_eq_getElem (order.trans inside), Option.getD_some] using sorted

/-- The binary search decides membership of the folded suffix. -/
theorem allowedSuffix_iff (extension : Bytes) :
    allowedSuffix extension = true ↔ lower extension ∈ kAllowedExtensions := by
  obtain ⟨-, within, passed, rest⟩ := lowerBound_spec kAllowedExtensions extension
    kAllowedExtensions.length 0 kAllowedExtensions.length (by omega) (by omega) (by
      intro i j order inside later
      rw [compareSuffix_pos_iff] at later ⊢
      rcases Nat.lt_or_eq_of_le order with strict | rfl
      · exact (suffixKey_lt_of_lt strict inside).trans later
      · exact later)
  unfold allowedSuffix
  constructor
  · intro found
    generalize lowerBound kAllowedExtensions extension _ 0 _ = low at found
    rcases held : kAllowedExtensions[low]? with - | entry
    · rw [held] at found
      exact absurd found Bool.false_ne_true
    · rw [held] at found
      have member := List.mem_of_getElem? held
      have same : lower extension = lower entry := by simpa [equalsAsciiCi] using found
      rw [same, kAllowedExtensions_lower entry member]
      exact member
  · intro member
    obtain ⟨k, inside, same⟩ := List.getElem_of_mem member
    have entry : kAllowedExtensions.getD k [] = lower extension := by
      rw [List.getD_eq_getElem?_getD, List.getElem?_eq_getElem inside, same, Option.getD_some]
    have stops : lowerBound kAllowedExtensions extension kAllowedExtensions.length 0
        kAllowedExtensions.length = k := by
      by_contra elsewhere
      rcases Nat.lt_or_gt_of_ne elsewhere with early | late
      · apply rest _ (Nat.le_refl _) (by omega)
        rw [compareSuffix_pos_iff, ← entry]
        exact suffixKey_lt_of_lt early inside
      · have before := passed k (Nat.zero_le k) late
        rw [compareSuffix_pos_iff, entry] at before
        exact lt_irrefl _ before
    rw [stops, List.getElem?_eq_getElem inside, same]
    simp [equalsAsciiCi]

end Such.SearchableFiles
