import Mathlib.Data.List.Basic

/-! Offers taken one after the other, each unless one taken before is the same thing. Being the
same is any reflexive test; it need not be transitive. -/
namespace Representatives
variable {α : Type*} (same : α → α → Bool)

def enlist (out : List α) (a : α) : List α := if out.any (same · a) then out else out ++ [a]

def gather (offers : List α) : List α := offers.foldl (enlist same) []

variable {same}

theorem enlist_extends (out : List α) (a : α) : out <+: enlist same out a := by
  simp only [enlist]
  split
  · exact List.prefix_rfl
  · exact List.prefix_append out [a]

theorem foldl_enlist_extends (offers out : List α) : out <+: offers.foldl (enlist same) out := by
  induction offers generalizing out with
  | nil => exact List.prefix_rfl
  | cons a offers ih => exact (enlist_extends out a).trans (ih _)

theorem mem_foldl_enlist {offers out : List α} {a : α} (member : a ∈ offers.foldl (enlist same) out) :
    a ∈ out ∨ a ∈ offers := by
  induction offers generalizing out with
  | nil => exact .inl member
  | cons b offers ih =>
    rcases ih member with early | late
    · simp only [enlist] at early
      split at early
      · exact .inl early
      · rcases List.mem_append.1 early with old | new
        · exact .inl old
        · exact .inr (List.mem_singleton.1 new ▸ List.mem_cons_self)
    · exact .inr (List.mem_cons_of_mem _ late)

/-- Whatever is offered has a representative. -/
theorem exists_same_of_mem (refl : ∀ a, same a a = true) {offers out : List α} {a : α}
    (offered : a ∈ offers) : ∃ r ∈ offers.foldl (enlist same) out, same r a = true := by
  induction offers generalizing out with
  | nil => cases offered
  | cons b offers ih =>
    rcases List.mem_cons.1 offered with rfl | later
    · have taken : ∃ r ∈ enlist same out a, same r a = true := by
        simp only [enlist]
        split
        · rename_i present
          exact List.any_eq_true.1 present
        · exact ⟨a, List.mem_append_right _ (List.mem_singleton_self a), refl a⟩
      obtain ⟨r, member, alike⟩ := taken
      exact ⟨r, (foldl_enlist_extends offers _).subset member, alike⟩
    · exact ih later

/-- No later one is the same as an earlier one. -/
theorem foldl_enlist_pairwise {offers out : List α}
    (apart : out.Pairwise fun a b => same a b = false) :
    (offers.foldl (enlist same) out).Pairwise fun a b => same a b = false := by
  induction offers generalizing out with
  | nil => exact apart
  | cons a offers ih =>
    apply ih
    simp only [enlist]
    split
    · exact apart
    · rename_i new
      rw [List.pairwise_append]
      refine ⟨apart, List.pairwise_singleton _ a, fun b member c last => ?_⟩
      rw [List.mem_singleton.1 last]
      rw [Bool.not_eq_true, List.any_eq_false] at new
      exact Bool.not_eq_true _ ▸ new b member

end Representatives
