import Mathlib.Data.List.Basic

/-! Depth-first walks over trees that leave out what lies below some of the nodes, and that may be
broken off after any number of them. -/
namespace PrunedWalk

inductive Rose (α : Type) where
  | node (label : α) (children : List (Rose α))

section Trees
variable {α : Type}

mutual

def Rose.size : Rose α → Nat
  | .node _ children => 1 + sizes children

def sizes : List (Rose α) → Nat
  | [] => 0
  | t :: ts => t.size + sizes ts

end

/-- The labels from the top of some trees down to a node. -/
inductive Occurs : List (Rose α) → List α → Prop where
  | here {trees : List (Rose α)} {label : α} {children : List (Rose α)}
      (member : .node label children ∈ trees) : Occurs trees [label]
  | under {trees : List (Rose α)} {label : α} {children : List (Rose α)} {trail : List α}
      (member : .node label children ∈ trees) (deeper : Occurs children trail) :
      Occurs trees (label :: trail)

/-- The trails in the order of the walk, at most `limit` of them. What is pending is kept with the
trail above it. -/
def walk (enters : List α → Bool) : Nat → List (List α × Rose α) → List (List α)
  | 0, _ => []
  | _, [] => []
  | limit + 1, (above, .node label children) :: rest =>
    (above ++ [label]) :: walk enters limit
      ((if enters (above ++ [label]) then children.map (above ++ [label], ·) else []) ++ rest)

/-- A node that the walk comes to: it enters everything above it. -/
structure Visited (enters : List α → Bool) (above : List α) (trees : List (Rose α))
    (trail : List α) : Prop where
  occurs : Occurs trees trail
  entered : ∀ front, front <+: trail → front ≠ [] → front ≠ trail → enters (above ++ front) = true

variable {enters : List α → Bool} {above trail : List α} {trees : List (Rose α)} {label : α}
  {children : List (Rose α)} {limit : Nat} {pending : List (List α × Rose α)}

theorem Occurs.ne_nil (occurs : Occurs trees trail) : trail ≠ [] := by
  cases occurs <;> simp

theorem Occurs.front (occurs : Occurs trees trail) {front : List α} (first : front <+: trail)
    (filled : front ≠ []) : Occurs trees front := by
  induction occurs generalizing front with
  | here member =>
    obtain ⟨b, rest, rfl⟩ := List.exists_cons_of_ne_nil filled
    obtain ⟨rfl, below⟩ := List.cons_prefix_cons.mp first
    rw [List.prefix_nil.mp below]
    exact .here member
  | under member _ ih =>
    obtain ⟨b, rest, rfl⟩ := List.exists_cons_of_ne_nil filled
    obtain ⟨rfl, below⟩ := List.cons_prefix_cons.mp first
    by_cases top : rest = []
    · rw [top]
      exact .here member
    · exact .under member (ih below top)

theorem occurs_iff_exists : Occurs trees trail ↔ ∃ t ∈ trees, Occurs [t] trail := by
  constructor
  · intro occurs
    cases occurs with
    | here member => exact ⟨_, member, .here List.mem_cons_self⟩
    | under member deeper => exact ⟨_, member, .under List.mem_cons_self deeper⟩
  · rintro ⟨t, member, occurs⟩
    cases occurs with
    | here only =>
      obtain rfl := List.mem_singleton.mp only
      exact .here member
    | under only deeper =>
      obtain rfl := List.mem_singleton.mp only
      exact .under member deeper

theorem visited_iff_exists : Visited enters above trees trail ↔
    ∃ t ∈ trees, Visited enters above [t] trail := by
  constructor
  · rintro ⟨occurs, entered⟩
    obtain ⟨t, member, occurs⟩ := occurs_iff_exists.mp occurs
    exact ⟨t, member, occurs, entered⟩
  · rintro ⟨t, member, occurs, entered⟩
    exact ⟨occurs_iff_exists.mpr ⟨t, member, occurs⟩, entered⟩

/-- One node: the node itself, and what lies below it if it is entered. -/
theorem visited_node : Visited enters above [.node label children] trail ↔
    trail = [label] ∨ ∃ rest, trail = label :: rest ∧ enters (above ++ [label]) = true ∧
      Visited enters (above ++ [label]) children rest := by
  constructor
  · rintro ⟨occurs, entered⟩
    cases occurs with
    | here only =>
      obtain ⟨rfl, rfl⟩ := Rose.node.inj (List.mem_singleton.mp only)
      exact .inl rfl
    | @under _ b _ rest only deeper =>
      obtain ⟨rfl, rfl⟩ := Rose.node.inj (List.mem_singleton.mp only)
      refine .inr ⟨rest, rfl, entered _ ⟨rest, rfl⟩ (by simp) (by simp [deeper.ne_nil.symm]),
        deeper, ?_⟩
      intro front first filled differ
      have open_ := entered (b :: front) (by simpa using first) (by simp) (by simpa using differ)
      rwa [List.append_assoc, List.singleton_append]
  · rintro (rfl | ⟨rest, rfl, open_, occurs, entered⟩)
    · refine ⟨.here List.mem_cons_self, fun front first filled differ => ?_⟩
      have size := first.length_le
      have short : front.length ≠ 0 := by simpa using filled
      exact absurd (first.eq_of_length (by simp at size ⊢; omega)) differ
    · refine ⟨.under List.mem_cons_self occurs, fun front first filled differ => ?_⟩
      cases front with
      | nil => exact absurd rfl filled
      | cons b front =>
        obtain ⟨rfl, below⟩ := List.cons_prefix_cons.mp first
        by_cases top : front = []
        · rwa [top]
        · have deeper := entered front below top (by simpa using differ)
          rwa [List.append_assoc, List.singleton_append] at deeper

theorem sizes_append (ts us : List (Rose α)) : sizes (ts ++ us) = sizes ts + sizes us := by
  induction ts with
  | nil => simp [sizes]
  | cons t ts ih => simp only [List.cons_append, sizes, ih]; omega

theorem map_snd_pending (above : List α) (trees : List (Rose α)) :
    (trees.map (above, ·)).map Prod.snd = trees := by
  rw [List.map_map]
  exact List.map_id trees

/-- A walk that is long enough comes to exactly the nodes whose ancestors are all entered. -/
theorem mem_walk_iff (enough : sizes (pending.map Prod.snd) ≤ limit) :
    trail ∈ walk enters limit pending ↔
      ∃ p ∈ pending, ∃ rest, trail = p.1 ++ rest ∧ Visited enters p.1 [p.2] rest := by
  induction limit generalizing pending with
  | zero =>
    cases pending with
    | nil => simp [walk]
    | cons p pending =>
      obtain ⟨above, label, children⟩ := p
      simp [sizes, Rose.size] at enough
  | succ limit ih =>
    cases pending with
    | nil => simp [walk]
    | cons p pending =>
      obtain ⟨above, label, children⟩ := p
      simp only [List.map_cons, sizes, Rose.size] at enough
      rw [walk, List.mem_cons, ih]
      · constructor
        · rintro (rfl | ⟨q, member, rest, rfl, visited⟩)
          · exact ⟨_, List.mem_cons_self, [label], rfl, visited_node.mpr (.inl rfl)⟩
          rcases List.mem_append.mp member with child | later
          · split at child
            · rename_i open_
              obtain ⟨t, own, rfl⟩ := List.mem_map.mp child
              refine ⟨_, List.mem_cons_self, label :: rest, by simp, visited_node.mpr (.inr ?_)⟩
              exact ⟨rest, rfl, open_, visited_iff_exists.mpr ⟨t, own, visited⟩⟩
            · cases child
          · exact ⟨q, List.mem_cons_of_mem _ later, rest, rfl, visited⟩
        · rintro ⟨q, member, rest, rfl, visited⟩
          rcases List.mem_cons.mp member with rfl | later
          · rcases visited_node.mp visited with rfl | ⟨rest, rfl, open_, visited⟩
            · exact .inl rfl
            obtain ⟨t, child, visited⟩ := visited_iff_exists.mp visited
            refine .inr ⟨(above ++ [label], t), List.mem_append_left _ ?_, rest, by simp, visited⟩
            rw [if_pos open_]
            exact List.mem_map_of_mem child
          · exact .inr ⟨q, List.mem_append_right _ later, rest, rfl, visited⟩
      · rw [List.map_append, sizes_append]
        split
        · rw [map_snd_pending]
          omega
        · simp only [List.map_nil, sizes]
          omega

/-- From the top: the nodes whose ancestors are all entered. -/
theorem mem_walk_trees_iff (enough : sizes trees ≤ limit) :
    trail ∈ walk enters limit (trees.map ([], ·)) ↔ Visited enters [] trees trail := by
  rw [mem_walk_iff (by rwa [map_snd_pending]), visited_iff_exists]
  constructor
  · rintro ⟨p, member, rest, rfl, visited⟩
    obtain ⟨t, among, rfl⟩ := List.mem_map.mp member
    exact ⟨t, among, visited⟩
  · rintro ⟨t, among, visited⟩
    exact ⟨([], t), List.mem_map_of_mem among, trail, rfl, visited⟩

/-- A walk that enters everything lists the tree. -/
theorem occurs_iff_mem_walk : Occurs trees trail ↔
    trail ∈ walk (fun _ => true) (sizes trees) (trees.map ([], ·)) := by
  rw [mem_walk_trees_iff (Nat.le_refl _)]
  exact ⟨fun occurs => ⟨occurs, fun _ _ _ _ => rfl⟩, (·.occurs)⟩

/-- A walk that is broken off has come to the same nodes in the same order. -/
theorem walk_prefix (enters : List α → Bool) (limit more : Nat) (pending : List (List α × Rose α)) :
    walk enters limit pending <+: walk enters (limit + more) pending := by
  induction limit generalizing pending with
  | zero => exact List.nil_prefix
  | succ limit ih =>
    rw [Nat.succ_add]
    cases pending with
    | nil => exact List.prefix_refl _
    | cons p pending =>
      obtain ⟨above, label, children⟩ := p
      exact List.cons_prefix_cons.mpr ⟨rfl, ih _⟩

/-- Above any node that the walk misses there is one that it comes to without entering it. -/
theorem visited_or_blocked (occurs : Occurs trees trail) : Visited enters above trees trail ∨
    ∃ front, front <+: trail ∧ front ≠ trail ∧ Visited enters above trees front ∧
      enters (above ++ front) = false := by
  induction occurs generalizing above with
  | here member =>
    exact .inl (visited_iff_exists.mpr ⟨_, member, visited_node.mpr (.inl rfl)⟩)
  | @under _ label children trail member deeper ih =>
    cases open_ : enters (above ++ [label]) with
    | false =>
      refine .inr ⟨[label], ⟨trail, rfl⟩, by simp [deeper.ne_nil.symm], ?_, open_⟩
      exact visited_iff_exists.mpr ⟨_, member, visited_node.mpr (.inl rfl)⟩
    | true =>
      rcases @ih (above ++ [label]) with visited | ⟨front, first, differ, visited, blocked⟩
      · refine .inl (visited_iff_exists.mpr ⟨_, member, visited_node.mpr (.inr ?_)⟩)
        exact ⟨trail, rfl, open_, visited⟩
      · refine .inr ⟨label :: front, by simpa using first, by simpa using differ, ?_, ?_⟩
        · refine visited_iff_exists.mpr ⟨_, member, visited_node.mpr (.inr ?_)⟩
          exact ⟨front, rfl, open_, visited⟩
        · rwa [List.append_assoc, List.singleton_append] at blocked

end Trees
end PrunedWalk
