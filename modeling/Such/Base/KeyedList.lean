import Mathlib.Data.List.Nodup

/-! Lists without two entries under one key: the first entry of each key stays, in order. -/
namespace KeyedList
variable {α κ : Type*} [DecidableEq κ] (key : α → κ)

/-- Appended, unless the key is taken. -/
def insertBy (a : α) (l : List α) : List α := if key a ∈ l.map key then l else l ++ [a]

def uniqueBy (l : List α) : List α := l.foldl (fun unique a => insertBy key a unique) []

theorem insertBy_of_notMem {a : α} {l : List α} (fresh : key a ∉ l.map key) :
    insertBy key a l = l ++ [a] := if_neg fresh

theorem insertBy_of_mem {a : α} {l : List α} (taken : key a ∈ l.map key) :
    insertBy key a l = l := if_pos taken

theorem insertBy_cons_of_ne {a b : α} (other : key a ≠ key b) (l : List α) :
    insertBy key a (b :: l) = b :: insertBy key a l := by
  by_cases taken : key a ∈ l.map key
  · rw [insertBy_of_mem key taken, insertBy_of_mem key (List.mem_cons_of_mem _ taken)]
  · have fresh : key a ∉ (b :: l).map key := by
      intro member
      rcases List.mem_cons.mp member with same | later
      · exact other same
      · exact taken later
    rw [insertBy_of_notMem key taken, insertBy_of_notMem key fresh, List.cons_append]

theorem insertBy_nodup {a : α} {l : List α} (distinct : (l.map key).Nodup) :
    ((insertBy key a l).map key).Nodup := by
  by_cases taken : key a ∈ l.map key
  · rw [insertBy_of_mem key taken]
    exact distinct
  · rw [insertBy_of_notMem key taken, List.map_append]
    apply distinct.append (List.nodup_singleton _)
    intro k member single
    rw [List.mem_singleton.mp single] at member
    exact taken member

theorem foldl_insertBy_nodup {l u : List α} (distinct : (u.map key).Nodup) :
    ((l.foldl (fun unique a => insertBy key a unique) u).map key).Nodup := by
  induction l generalizing u with
  | nil => exact distinct
  | cons a l ih => exact ih (insertBy_nodup key distinct)

theorem uniqueBy_nodup (l : List α) : ((uniqueBy key l).map key).Nodup :=
  foldl_insertBy_nodup key List.nodup_nil

theorem foldl_insertBy_of_nodup {l u : List α} (distinct : ((u ++ l).map key).Nodup) :
    l.foldl (fun unique a => insertBy key a unique) u = u ++ l := by
  induction l generalizing u with
  | nil => rw [List.foldl_nil, List.append_nil]
  | cons a l ih =>
    have fresh : key a ∉ u.map key := by
      intro taken
      rw [List.map_append, List.map_cons] at distinct
      exact (List.nodup_append.mp distinct).2.2 _ taken _ List.mem_cons_self rfl
    rw [List.foldl_cons, insertBy_of_notMem key fresh, ih (by rwa [← List.append_cons]),
      ← List.append_cons]

theorem uniqueBy_of_nodup {l : List α} (distinct : (l.map key).Nodup) : uniqueBy key l = l :=
  foldl_insertBy_of_nodup key distinct

theorem uniqueBy_append_singleton (l : List α) (a : α) :
    uniqueBy key (l ++ [a]) = insertBy key a (uniqueBy key l) := by
  simp only [uniqueBy]
  rw [List.foldl_append]
  rfl

theorem uniqueBy_uniqueBy (l : List α) : uniqueBy key (uniqueBy key l) = uniqueBy key l :=
  uniqueBy_of_nodup key (uniqueBy_nodup key l)

theorem foldl_insertBy_subset {l u : List α} :
    l.foldl (fun unique a => insertBy key a unique) u ⊆ u ++ l := by
  induction l generalizing u with
  | nil => exact List.subset_append_left u []
  | cons a l ih =>
    intro b member
    have split : b ∈ insertBy key a u ++ l := ih member
    rcases List.mem_append.mp split with inserted | rest
    · by_cases taken : key a ∈ u.map key
      · rw [insertBy_of_mem key taken] at inserted
        exact List.mem_append_left _ inserted
      · rw [insertBy_of_notMem key taken, List.mem_append, List.mem_singleton] at inserted
        rcases inserted with old | rfl
        · exact List.mem_append_left _ old
        · exact List.mem_append_right _ List.mem_cons_self
    · exact List.mem_append_right _ (List.mem_cons_of_mem _ rest)

theorem uniqueBy_subset (l : List α) : uniqueBy key l ⊆ l := foldl_insertBy_subset key

/-- No key is lost. -/
theorem mem_map_foldl_insertBy {l u : List α} {k : κ} :
    k ∈ (l.foldl (fun unique a => insertBy key a unique) u).map key ↔
      k ∈ u.map key ∨ k ∈ l.map key := by
  induction l generalizing u with
  | nil => simp
  | cons a l ih =>
    rw [List.foldl_cons, ih, List.map_cons, List.mem_cons]
    by_cases taken : key a ∈ u.map key
    · rw [insertBy_of_mem key taken]
      constructor
      · rintro (old | later)
        · exact .inl old
        · exact .inr (.inr later)
      · rintro (old | rfl | later)
        · exact .inl old
        · exact .inl taken
        · exact .inr later
    · rw [insertBy_of_notMem key taken, List.map_append, List.mem_append, List.map_singleton,
        List.mem_singleton, or_assoc]

/-- Of distinct keys at most one is taken out. -/
theorem eraseP_key {α κ : Type*} [BEq κ] [LawfulBEq κ] (key : α → κ) (k : κ) {l : List α}
    (distinct : (l.map key).Nodup) :
    l.eraseP (fun a => key a == k) = l.filter fun a => !(key a == k) := by
  induction l with
  | nil => rfl
  | cons a l ih =>
    rw [List.map_cons, List.nodup_cons] at distinct
    by_cases same : key a = k
    · have gone : ∀ b ∈ l, (!(key b == k)) = true := by
        intro b member
        have other : key b ≠ k := fun equal => distinct.1 (same ▸ equal ▸ List.mem_map_of_mem member)
        rw [beq_eq_false_iff_ne.mpr other]
        rfl
      rw [List.eraseP_cons_of_pos (by simp [same]), List.filter_cons_of_neg (by simp [same]),
        List.filter_eq_self.mpr gone]
    · rw [List.eraseP_cons_of_neg (by simp [same]), List.filter_cons_of_pos (by simp [same]),
        ih distinct.2]

end KeyedList
