import Such.Runtime.RuntimeClient.Narrowing

/-! Stages of a Drill Search query joined back into one query are read as the same stages. -/
namespace Such.RuntimeClient
open ByteText SearchDialect

/-- What a stage of a query is: trimmed, and without the mark between stages. -/
structure IsStage (stage : Bytes) : Prop where
  trimmed : trim stage = stage
  single : NoPair 47 59 stage

theorem trim_trim (v : Bytes) : trim (trim v) = trim v := by
  have front : (trim v).dropWhile isSpace = trim v := by
    cases core : trim v with
    | nil => rfl
    | cons b core =>
      obtain ⟨tail, shape⟩ := List.rdropWhile_prefix isSpace (l := v.dropWhile isSpace)
      have solid : isSpace b = false := by
        have head : (v.dropWhile isSpace).head? = some b := by
          rw [← shape]
          change (trim v ++ tail).head? = some b
          rw [core]
          rfl
        simpa [head] using List.head?_dropWhile_not isSpace v
      rw [List.dropWhile_cons_of_neg (by simp [solid])]
  rw [trim, front]
  exact List.rdropWhile_idempotent isSpace _

theorem trim_blank (v : Bytes) : trim (32 :: v) = trim v := by
  rw [trim, List.dropWhile_cons_of_pos isSpace_blank, trim]

theorem isStage_of_mem {query stage : Bytes} (member : stage ∈ queryStages query) :
    IsStage stage := by
  rw [queryStages_eq] at member
  obtain ⟨piece, inside, rfl⟩ := List.mem_map.mp member
  exact ⟨trim_trim piece, (splitPair_noPair inside).mono (infix_trim piece)⟩

/-- The stages of a query that is its own only stage. -/
theorem IsStage.queryStages {stage : Bytes} (isStage : IsStage stage) :
    queryStages stage = [stage] := by
  rw [queryStages_eq, splitPair_of_noPair isStage.single, List.map_singleton, isStage.trimmed]

/-- The blank in front of a stage keeps it from completing a mark. -/
theorem queryStages_drill {q r : Bytes} (isStage : IsStage r) :
    queryStages (drill q r) = queryStages q ++ [r] := by
  have single : NoPair 47 59 (32 :: r) := by
    cases r with
    | nil => exact noPair_singleton 32
    | cons b r =>
      exact noPair_cons_cons.mpr ⟨fun same => absurd same.1 (by decide), isStage.single⟩
  rw [queryStages_eq, map_trim_drill, splitPair_of_noPair single, List.map_singleton, trim_blank,
    isStage.trimmed, queryStages_eq]

theorem joinStages_concat {stages : List Bytes} (filled : stages ≠ []) (stage : Bytes) :
    joinStages (stages ++ [stage]) = drill (joinStages stages) stage := by
  obtain ⟨first, rest, rfl⟩ := List.exists_cons_of_ne_nil filled
  simp only [List.cons_append, joinStages, List.foldl_append, List.foldl_cons, List.foldl_nil, drill]

/-- Joined stages are read as the same stages, whatever they begin and end with. -/
theorem queryStages_joinStages {stages : List Bytes} (filled : stages ≠ [])
    (all : ∀ stage ∈ stages, IsStage stage) : queryStages (joinStages stages) = stages := by
  induction stages using List.reverseRecOn with
  | nil => exact absurd rfl filled
  | append_singleton stages stage ih =>
    have last : IsStage stage := all stage (by simp)
    by_cases first : stages = []
    · rw [first]
      exact last.queryStages
    · rw [joinStages_concat first, queryStages_drill last,
        ih first fun other member => all other (by simp [member])]

theorem splitDetail_active_iff (query : Bytes) :
    (splitDetail query).active = true ↔ 1 < (queryStages query).length := by
  rw [splitDetail_active, queryStages, List.length_cons]
  cases (splitDetail query).refinements <;> simp

/-- The first stages of a query, joined into one again, are its stages, and there is a drill
exactly where they are more than one. -/
theorem splitDetail_joinStages_take (query : Bytes) {k : Nat} (low : 1 ≤ k)
    (high : k ≤ (queryStages query).length) :
    queryStages (joinStages ((queryStages query).take k)) = (queryStages query).take k ∧
      ((splitDetail (joinStages ((queryStages query).take k))).active = true ↔ 1 < k) := by
  have length : ((queryStages query).take k).length = k := List.length_take_of_le high
  have filled : (queryStages query).take k ≠ [] := by
    intro empty
    rw [empty, List.length_nil] at length
    omega
  have stages : queryStages (joinStages ((queryStages query).take k)) = (queryStages query).take k :=
    queryStages_joinStages filled fun stage member => isStage_of_mem (List.mem_of_mem_take member)
  refine ⟨stages, ?_⟩
  rw [splitDetail_active_iff, stages, length]

theorem splitDetail_joinStages_take_drill :
    queryStages (joinStages ((queryStages (lit "/;;/ /;/")).take 2)) = [lit "", lit ";/"] ∧
      (splitDetail (joinStages ((queryStages (lit "/;;/ /;/")).take 2))).active = true := by
  have both := splitDetail_joinStages_take (lit "/;;/ /;/") (k := 2) (by decide) (by decide)
  exact ⟨both.1.trans (by decide), both.2.2 (by decide)⟩

end Such.RuntimeClient
