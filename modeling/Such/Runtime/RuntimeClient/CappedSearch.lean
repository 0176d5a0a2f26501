import Such.Runtime.RuntimeClient

/-! A cap on a search keeps the first rows of the uncapped answer and nothing else changes:
no candidate search sees it and no row is dropped for it before the filter has run. -/
namespace Such.RuntimeClient
open ByteText CivilTime SearchDialect SearchableFiles HangulQueryNfc

section Capped
variable (zone : Zone) (dialect : PlatformDialect) (now : Int) {n : Nat} (positive : 0 < n)
include positive

theorem searchFiles_capped (observed : List Bytes) (runtime : Runtime) (query : Bytes) :
    searchFiles zone dialect now observed runtime query n =
      (searchFiles zone dialect now observed runtime query 0).map (List.take n) := by
  simp only [searchFiles]
  split
  · rfl
  · simp only [Except.map]
    rw [keepRows_eq, keepRows_limit _ (by simpa using positive)]
    rfl

omit zone dialect now in
theorem requestContent_capped
    (content : ContentSearchRequest → Except Bytes (List AbiContentResult)) (filter : SearchFilter)
    (candidates : Option (List UInt64)) :
    requestContent content filter candidates n =
      (requestContent content filter candidates 0).map (List.take n) := by
  simp only [requestContent]
  split
  · rfl
  · simp only [Except.map, ne_eq, not_true_eq_false, false_and, if_false]
    apply congrArg Except.ok
    split
    · rfl
    · rename_i short
      exact (List.take_of_length_le (by omega)).symm

theorem searchContent_capped (observed : List Bytes) (readOnly : Bool) (runtime : Runtime)
    (filter : SearchFilter) (restriction : Option (List UInt64)) :
    searchContent zone dialect now observed readOnly runtime filter restriction n =
      (searchContent zone dialect now observed readOnly runtime filter restriction 0).map
        (List.take n) := by
  have asked := requestContent_capped (n := n) positive
  cases readOnly with
  | true => rfl
  | false =>
    cases held : runtime.searchContent with
    | none => simp only [searchContent, held]; rfl
    | some content =>
      simp only [searchContent, held, Bool.false_eq_true, if_false]
      split
      · exact congrArg Except.ok List.take_nil.symm
      · cases restriction with
        | some ids => exact asked content filter (some ids)
        | none =>
          dsimp only
          split
          · -- The candidates are searched for without a cap on either side.
            split
            · rfl
            · split
              · exact congrArg Except.ok List.take_nil.symm
              · exact asked content filter _
          · exact asked content filter none

theorem searchLoaded_capped (observed : List Bytes) (readOnly : Bool) (runtime : Runtime)
    (query : Bytes) :
    searchLoaded zone dialect now observed readOnly runtime query n =
      (searchLoaded zone dialect now observed readOnly runtime query 0).map (List.take n) := by
  have content := searchContent_capped zone dialect now positive observed readOnly runtime
  simp only [searchLoaded]
  split
  · split
    · rfl
    · split
      · split
        · rfl
        · split
          · exact congrArg Except.ok List.take_nil.symm
          · exact content _ _
      · exact content _ _
  · split
    · exact content _ _
    · exact searchFiles_capped zone dialect now positive observed runtime query

/-- A capped search answers with the first rows of the uncapped one, the same error text and the
same client, whatever the query asks for. -/
theorem search_capped (impl : Impl) (query : Bytes) :
    (search zone dialect now impl query n).items =
        (search zone dialect now impl query 0).items.take n ∧
      (search zone dialect now impl query n).error = (search zone dialect now impl query 0).error ∧
      (search zone dialect now impl query n).impl = (search zone dialect now impl query 0).impl := by
  have nothing : ([] : List ResultItem) = [].take n := List.take_nil.symm
  simp only [search]
  split
  · rw [searchLoaded_capped zone dialect now positive]
    cases searchLoaded zone dialect now _ _ _ query 0 with
    | error e => exact ⟨nothing, rfl, rfl⟩
    | ok items => exact ⟨rfl, rfl, rfl⟩
  · exact ⟨nothing, rfl, rfl⟩

end Capped

/-- A client whose runtime answers every file search with two rows. -/
def twoRowClient : Impl where
  ready := true
  runtime := some {
    lastError := []
    listExtensions := []
    search := fun _ _ _ => .ok [⟨1, some (lit "a.txt"), none, none, 0, 1, 1, 0, 0⟩,
      ⟨2, some (lit "b.txt"), none, none, 0, 1, 1, 0, 0⟩]
    searchContent := none }

theorem two_rows_capped :
    (search .utc .windows 1800000000 twoRowClient (lit "txt") 1).items =
        (search .utc .windows 1800000000 twoRowClient (lit "txt") 0).items.take 1 ∧
      (search .utc .windows 1800000000 twoRowClient (lit "txt") 1).error =
        (search .utc .windows 1800000000 twoRowClient (lit "txt") 0).error ∧
      (search .utc .windows 1800000000 twoRowClient (lit "txt") 1).impl =
        (search .utc .windows 1800000000 twoRowClient (lit "txt") 0).impl :=
  search_capped .utc .windows 1800000000 (by decide) twoRowClient (lit "txt")

end Such.RuntimeClient
