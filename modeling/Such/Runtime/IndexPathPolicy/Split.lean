import Such.Runtime.IndexPathPolicy.Keys

/-! Windows exclusions around the installed copy: an exclusion that covers it is replaced by what
lies beside the way down to it, and nothing else is lost. -/
namespace Such.IndexPathPolicy
open ByteText LexicalPath

section Ending
variable (host : WindowsHost)

/-- The climb from this path stops, at the exclusion or at a root. -/
inductive SplitEnds (excluded : Bytes) : Bytes → Prop where
  | reached {cursor : Bytes}
      (same : pathKey (.windows host) cursor = pathKey (.windows host) excluded) :
      SplitEnds excluded cursor
  | top {cursor : Bytes} (stuck : ((parentPath .windows cursor).isEmpty ||
      pathKey (.windows host) (parentPath .windows cursor) == pathKey (.windows host) cursor) =
        true) : SplitEnds excluded cursor
  | up {cursor : Bytes} (next : SplitEnds excluded (parentPath .windows cursor)) :
      SplitEnds excluded cursor

theorem parentPath_prefix (path : Bytes) : parentPath .windows path <+: path := by
  have lead : (afterRootName .windows path).takeWhile (isSeparator .windows) <+:
      afterRootName .windows path := List.takeWhile_prefix _
  obtain ⟨rest, split⟩ := lead
  have whole : path.take (rootNameLength .windows path) ++ afterRootName .windows path = path :=
    List.take_append_drop _ _
  have drop : (afterRootName .windows path).drop
      ((afterRootName .windows path).takeWhile (isSeparator .windows)).length = rest := by
    have dropped := congrArg (List.drop
      ((afterRootName .windows path).takeWhile (isSeparator .windows)).length) split
    rw [List.drop_left] at dropped
    exact dropped.symm
  simp only [parentPath, drop]
  conv_rhs => rw [← whole, ← split, ← List.append_assoc]
  rw [List.prefix_append_right_inj]
  exact (List.rdropWhile_prefix _ _).trans (List.rdropWhile_prefix _ _)

/-- A parent is the path itself or shorter. -/
theorem parentPath_shorter (path : Bytes) :
    parentPath .windows path = path ∨ (parentPath .windows path).length < path.length := by
  have above := parentPath_prefix path
  rcases Nat.lt_or_ge (parentPath .windows path).length path.length with shorter | whole
  · exact .inr shorter
  · exact .inl (above.eq_of_length_le whole)

theorem splitEnds (excluded cursor : Bytes) : SplitEnds host excluded cursor := by
  induction size : cursor.length using Nat.strong_induction_on generalizing cursor with
  | _ n ih =>
    subst size
    rcases parentPath_shorter cursor with same | shorter
    · apply SplitEnds.top
      rw [same, beq_self_eq_true, Bool.or_true]
    · exact .up (ih _ shorter _ rfl)

/-- The length of the path is fuel enough. -/
theorem splitAround_enough (excluded : Bytes) {fuel : Nat} (extra : Nat) (acc : Gathered)
    {cursor : Bytes} (enough : cursor.length < fuel) :
    splitAround host excluded (fuel + extra) acc cursor = splitAround host excluded fuel acc cursor := by
  induction fuel generalizing acc cursor with
  | zero => omega
  | succ fuel ih =>
    rw [Nat.succ_add, splitAround, splitAround]
    split
    · rfl
    · dsimp only
      split
      · rfl
      · rename_i onward
        rcases parentPath_shorter cursor with same | shorter
        · rw [same] at onward
          simp at onward
        · exact ih _ (by omega)

end Ending

section Hosts

/-- What Windows documents: absolute paths stay what they are, case folding goes unit by unit,
known folders and the module have absolute paths, and a directory's listing has its entries
under the path it was asked by. Two paths name one directory exactly when their keys agree, so
the entries and the attributes belong to the key. -/
structure Tidy (host : WindowsHost) (entries : Bytes → List Bytes) : Prop where
  folds : Folds (Platform.windows host).fold
  absolute : ∀ p : Place, (host.absolute p.text).getD p.text = p.text
  folders : ∀ folder, host.knownFolder folder = [] ∨ ∃ p : Place, host.knownFolder folder = p.text
  moduleFile : ∀ file ∈ host.moduleFile, ∃ p : Place, file = p.text
  named : ∀ key, ∀ n ∈ entries key, IsEntryName n
  children : ∀ (p : Place) (child : Bytes), child ∈ host.children p.text ↔
    ∃ n ∈ entries (pathKey (.windows host) p.text), child = joinName .windows p.text n
  junction : ∀ p q : Place, pathKey (.windows host) p.text = pathKey (.windows host) q.text →
    host.isReparsePoint p.text = host.isReparsePoint q.text

/-- Every name on the way is an entry of the directory above it. -/
def Exists (host : WindowsHost) (entries : Bytes → List Bytes) (p : Place) : Prop :=
  ∀ depth name, p.names[depth]? = some name →
    ∃ n ∈ entries (pathKey (.windows host) (p.above depth).text),
      (Platform.windows host).fold n = (Platform.windows host).fold name

/-- No component is a junction or another reparse point. -/
def NoReparse (host : WindowsHost) (p : Place) : Prop :=
  ∀ depth, host.isReparsePoint (p.above depth).text = false

theorem isEntryName_parts : IsEntryName (lit "Programs") ∧ IsEntryName (lit "Such") ∧
    IsEntryName (lit "AppData") ∧ IsEntryName (lit "Users") := by decide +kernel

variable {host : WindowsHost} {entries : Bytes → List Bytes} (tidy : Tidy host entries)
include tidy

theorem Tidy.normalizedAbsolute_text (p : Place) :
    normalizedAbsolute (.windows host) p.text = p.text := by
  have absolute := tidy.absolute p
  change lexicallyNormal .windows ((host.absolute p.text).getD p.text) = p.text
  rw [absolute, p.lexicallyNormal_text]

/-- The installed copy is at a place, or nowhere. -/
theorem Tidy.installRoot : windowsSuchInstallRoot host = [] ∨
    ∃ p : Place, windowsSuchInstallRoot host = p.text := by
  have placed : ∀ directory, (∃ p : Place, directory = p.text) →
      ∃ p : Place, normalizedAbsolute (.windows host) directory = p.text := by
    rintro _ ⟨p, rfl⟩
    exact ⟨p, tidy.normalizedAbsolute_text p⟩
  simp only [windowsSuchInstallRoot]
  split
  · rename_i directory installed
    obtain ⟨file, found, installed⟩ := Option.bind_eq_some_iff.mp installed
    obtain ⟨p, rfl⟩ := tidy.moduleFile file found
    obtain ⟨q, above⟩ := p.exists_parentPath
    have chosen : ∃ d : Place, (if componentEqualAscii (filename .windows q.text) (lit "cli") then
        parentPath .windows q.text else q.text) = d.text := by
      split
      · exact q.exists_parentPath
      · exact ⟨q, rfl⟩
    obtain ⟨d, chosen⟩ := chosen
    rw [above, chosen] at installed
    split at installed
    · rw [← Option.some.inj installed]
      exact .inr (placed _ ⟨d, rfl⟩)
    · cases installed
  · rcases tidy.folders .localAppData with none | ⟨p, placed_⟩
    · rw [none]
      exact .inl rfl
    · rw [placed_, if_neg (by simpa using p.text_ne_nil), p.joinName_text _ isEntryName_parts.1,
        Place.joinName_text _ _ isEntryName_parts.2.1]
      exact .inr (placed _ ⟨_, rfl⟩)

end Hosts

section Gathering
variable (host : WindowsHost)

/-- The keys seen are those of the paths gathered. -/
def Keyed (acc : Gathered) : Prop := acc.seen = acc.out.map (pathKey (.windows host))

/-- From one state of the list to another: nothing is dropped, and only such places are new. -/
structure Gathers (new : Place → Prop) (acc acc' : Gathered) : Prop where
  keyed : Keyed host acc → Keyed host acc'
  kept : acc.out ⊆ acc'.out
  only : ∀ e ∈ acc'.out, e ∈ acc.out ∨ ∃ p, new p ∧ e = Place.text p

def Holds (acc : Gathered) (p : Place) : Prop :=
  ∃ e ∈ acc.out, pathKey (.windows host) e = pathKey (.windows host) p.text

variable {host} {new more : Place → Prop} {acc acc' last : Gathered} {p : Place}

theorem Gathers.refl (new : Place → Prop) (acc : Gathered) : Gathers host new acc acc :=
  ⟨id, List.Subset.refl _, fun _ => .inl⟩

theorem Gathers.trans (first : Gathers host new acc acc') (second : Gathers host new acc' last) :
    Gathers host new acc last := by
  refine ⟨fun keyed => second.keyed (first.keyed keyed), fun _ member => second.kept (first.kept member), ?_⟩
  intro e member
  rcases second.only e member with before | added
  · exact first.only e before
  · exact .inr added

theorem Gathers.mono (gathers : Gathers host new acc acc') (wider : ∀ p, new p → more p) :
    Gathers host more acc acc' := by
  refine ⟨gathers.keyed, gathers.kept, fun e member => ?_⟩
  rcases gathers.only e member with before | ⟨p, fresh, same⟩
  · exact .inl before
  · exact .inr ⟨p, wider p fresh, same⟩

theorem Gathers.holds (gathers : Gathers host new acc acc') (held : Holds host acc p) :
    Holds host acc' p := by
  obtain ⟨e, member, same⟩ := held
  exact ⟨e, gathers.kept member, same⟩

theorem Gathers.foldl {α : Type} {step : Gathered → α → Gathered} {items : List α}
    (each : ∀ item ∈ items, ∀ acc, Gathers host new acc (step acc item)) (acc : Gathered) :
    Gathers host new acc (items.foldl step acc) := by
  induction items generalizing acc with
  | nil => exact .refl new acc
  | cons item items ih =>
    rw [List.forall_mem_cons] at each
    exact (each.1 acc).trans (ih each.2 _)

variable {entries : Bytes → List Bytes} (tidy : Tidy host entries)
include tidy

theorem appendUnique_gathers (acc : Gathered) (p : Place) :
    Gathers host (· = p) acc (appendUnique (.windows host) acc p.text) := by
  simp only [appendUnique, tidy.normalizedAbsolute_text]
  split
  · exact .refl _ acc
  · refine ⟨fun keyed => ?_, List.subset_append_left _ _, ?_⟩
    · simp only [Keyed] at keyed ⊢
      rw [keyed, List.map_append]
      rfl
    · intro e member
      rcases List.mem_append.mp member with before | fresh
      · exact .inl before
      · exact .inr ⟨p, rfl, List.mem_singleton.mp fresh⟩

theorem appendUnique_holds (keyed : Keyed host acc) (p : Place) :
    Holds host (appendUnique (.windows host) acc p.text) p := by
  simp only [appendUnique, tidy.normalizedAbsolute_text]
  split
  · rename_i known
    have filled := pathKey_text_ne_nil tidy.folds p
    have seen : pathKey (.windows host) p.text ∈ acc.seen := by simpa [filled] using known
    rw [keyed] at seen
    exact List.mem_map.mp seen
  · exact ⟨p.text, List.mem_append_right _ List.mem_cons_self, rfl⟩

/-- What lies beside the way on: every entry of the directory but one. -/
def Beside (host : WindowsHost) (entries : Bytes → List Bytes) (parent allowed q : Place) : Prop :=
  ∃ n ∈ entries (pathKey (.windows host) parent.text), ∃ named : IsEntryName n,
    q = parent.child n named ∧ pathKey (.windows host) q.text ≠ pathKey (.windows host) allowed.text

theorem children_text {parent : Place} {child : Bytes} (member : child ∈ host.children parent.text) :
    ∃ n ∈ entries (pathKey (.windows host) parent.text), ∃ named : IsEntryName n,
      child = (parent.child n named).text := by
  obtain ⟨n, inside, same⟩ := (tidy.children parent child).mp member
  have named := tidy.named _ n inside
  exact ⟨n, inside, named, by rw [same, parent.joinName_text n named]⟩

/-- One step of the loop over a directory's children. -/
def appendChild (host : WindowsHost) (allowed : Place) (acc : Gathered) (child : Bytes) : Gathered :=
  if host.isReparsePoint child then acc
  else if pathKey (.windows host) child = pathKey (.windows host) allowed.text then acc
  else appendUnique (.windows host) acc child

theorem appendChildrenExcept_eq (acc : Gathered) (parent allowed : Place) :
    appendChildrenExcept host acc parent.text allowed.text =
      (host.children parent.text).foldl (appendChild host allowed) acc := by
  simp only [appendChildrenExcept, tidy.normalizedAbsolute_text]
  apply List.foldl_ext
  intro acc child member
  obtain ⟨n, -, named, rfl⟩ := children_text tidy member
  simp only [appendChild, tidy.normalizedAbsolute_text]

theorem appendChild_gathers {parent allowed : Place} {child : Bytes}
    (member : child ∈ host.children parent.text) (acc : Gathered) :
    Gathers host (Beside host entries parent allowed) acc (appendChild host allowed acc child) := by
  obtain ⟨n, inside, named, rfl⟩ := children_text tidy member
  simp only [appendChild]
  split
  · exact .refl _ acc
  · split
    · exact .refl _ acc
    · rename_i off
      refine (appendUnique_gathers tidy acc _).mono ?_
      rintro _ rfl
      exact ⟨n, inside, named, rfl, off⟩

theorem appendChildrenExcept_gathers (acc : Gathered) (parent allowed : Place) :
    Gathers host (Beside host entries parent allowed) acc
      (appendChildrenExcept host acc parent.text allowed.text) := by
  rw [appendChildrenExcept_eq tidy]
  exact .foldl (fun child member acc => appendChild_gathers tidy member acc) acc

/-- Every entry beside the way that is no junction is gathered. -/
theorem appendChildrenExcept_holds {parent allowed q : Place} (keyed : Keyed host acc)
    (beside : Beside host entries parent allowed q) (plain : host.isReparsePoint q.text = false) :
    Holds host (appendChildrenExcept host acc parent.text allowed.text) q := by
  rw [appendChildrenExcept_eq tidy]
  obtain ⟨n, inside, named, rfl, off⟩ := beside
  have member : (parent.child n named).text ∈ host.children parent.text :=
    (tidy.children parent _).mpr ⟨n, inside, (parent.joinName_text n named).symm⟩
  obtain ⟨before, after, split⟩ := List.append_of_mem member
  have part : ∀ child ∈ before ++ after, child ∈ host.children parent.text := by
    intro child found
    rw [split]
    rcases List.mem_append.mp found with left | right
    · exact List.mem_append_left _ left
    · exact List.mem_append_right _ (List.mem_cons_of_mem _ right)
  have first : Gathers host (Beside host entries parent allowed) acc
      (before.foldl (appendChild host allowed) acc) :=
    .foldl (fun child found => appendChild_gathers tidy (part child (List.mem_append_left _ found))) acc
  rw [split, List.foldl_append, List.foldl_cons]
  have rest := fun acc => Gathers.foldl (fun child found =>
    @appendChild_gathers host entries tidy parent allowed child (part child (List.mem_append_right _ found))) acc
  refine (rest _).holds ?_
  rw [appendChild, if_neg (by simp [plain]), if_neg off]
  exact appendUnique_holds tidy (first.keyed keyed) _

end Gathering

section Splitting
variable {host : WindowsHost} {entries : Bytes → List Bytes} {acc : Gathered}

theorem keyParts_above (fold : Bytes → Bytes) (p : Place) (depth : Nat) :
    keyParts fold (p.above depth) = (keyParts fold p).take (depth + 1) := by
  change fold (rootSegment p.root) :: (p.names.take depth).map fold = _
  rw [List.map_take]
  rfl

theorem keyParts_above_succ (fold : Bytes → Bytes) (p : Place) {depth : Nat} {name : Bytes}
    (found : p.names[depth]? = some name) :
    keyParts fold (p.above (depth + 1)) = keyParts fold (p.above depth) ++ [fold name] := by
  change fold (rootSegment p.root) :: (p.names.take (depth + 1)).map fold = _
  rw [List.take_add_one, found, List.map_append]
  rfl

theorem keyParts_child (fold : Bytes → Bytes) (p : Place) (n : Bytes) (named : IsEntryName n) :
    keyParts fold (p.child n named) = keyParts fold p ++ [fold n] := by
  change ((rootSegment p.root :: p.names) ++ [n]).map fold = _
  rw [List.map_append]
  rfl

theorem length_keyParts (fold : Bytes → Bytes) (p : Place) :
    (keyParts fold p).length = p.names.length + 1 := by
  simp [keyParts]

theorem splitAround_reached {excluded cursor : Bytes} {fuel : Nat}
    (key : pathKey (.windows host) excluded = pathKey (.windows host) cursor) (acc : Gathered) :
    splitAround host excluded fuel acc cursor = acc := by
  cases fuel with
  | zero => rfl
  | succ fuel => rw [splitAround, key, if_pos rfl]

/-- Beside the way from a depth on down to the install root. -/
def OffWay (host : WindowsHost) (entries : Bytes → List Bytes) (install : Place) (depth : Nat)
    (q : Place) : Prop :=
  ∃ i, depth ≤ i ∧ i < install.names.length ∧
    Beside host entries (install.above i) (install.above (i + 1)) q

variable (tidy : Tidy host entries) (install : Place)
include tidy

theorem pathKey_above_ne {i k : Nat} (shorter : i < k) (inside : k ≤ install.names.length) :
    pathKey (.windows host) (install.above i).text ≠ pathKey (.windows host) (install.above k).text := by
  intro same
  have parts := ((pathKey_text_inj tidy.folds _ _).mp same).2
  rw [keyParts_above, keyParts_above] at parts
  have sizes := congrArg List.length parts
  rw [List.length_take, List.length_take, length_keyParts] at sizes
  omega

/-- Below the exclusion the climb goes one step up. -/
theorem splitAround_step {excluded : Bytes} {depth j fuel : Nat}
    (key : pathKey (.windows host) excluded = pathKey (.windows host) (install.above depth).text)
    (below : depth ≤ j) (inside : j < install.names.length) (acc : Gathered) :
    splitAround host excluded (fuel + 1) acc (install.above (j + 1)).text =
      splitAround host excluded fuel
        (appendChildrenExcept host acc (install.above j).text (install.above (j + 1)).text)
        (install.above j).text := by
  have onward := pathKey_above_ne tidy install (show j < j + 1 by omega) inside
  have apart := pathKey_above_ne tidy install (show depth < j + 1 by omega) inside
  have filled : (install.above j).text.isEmpty = false := by
    simpa using (install.above j).text_ne_nil
  rw [splitAround, key, if_neg (Ne.symm apart)]
  simp only [install.parentPath_above inside]
  rw [if_neg (by simp [filled, onward])]

theorem splitAround_gathers {excluded : Bytes} {depth j fuel : Nat}
    (key : pathKey (.windows host) excluded = pathKey (.windows host) (install.above depth).text)
    (below : depth ≤ j) (inside : j ≤ install.names.length) (acc : Gathered) :
    Gathers host (OffWay host entries install depth) acc
      (splitAround host excluded fuel acc (install.above j).text) := by
  induction fuel generalizing j acc with
  | zero => exact .refl _ acc
  | succ fuel ih =>
    rcases Nat.eq_or_lt_of_le below with rfl | strict
    · rw [splitAround_reached key]
      exact .refl _ acc
    · obtain ⟨i, rfl⟩ : ∃ i, j = i + 1 := ⟨j - 1, by omega⟩
      rw [splitAround_step tidy install key (by omega) (by omega)]
      refine Gathers.trans ?_ (ih (by omega) (by omega) _)
      refine (appendChildrenExcept_gathers tidy acc _ _).mono ?_
      intro q beside
      exact ⟨i, by omega, by omega, beside⟩

/-- Everything beside the way is gathered before the climb is over. -/
theorem splitAround_holds {excluded : Bytes} {depth j fuel i : Nat} {q : Place}
    (key : pathKey (.windows host) excluded = pathKey (.windows host) (install.above depth).text)
    (inside : j ≤ install.names.length) (enough : j < depth + fuel) (keyed : Keyed host acc)
    (below : depth ≤ i) (above : i < j)
    (beside : Beside host entries (install.above i) (install.above (i + 1)) q)
    (plain : host.isReparsePoint q.text = false) :
    Holds host (splitAround host excluded fuel acc (install.above j).text) q := by
  induction fuel generalizing j acc with
  | zero => omega
  | succ fuel ih =>
    obtain ⟨k, rfl⟩ : ∃ k, j = k + 1 := ⟨j - 1, by omega⟩
    rw [splitAround_step tidy install key (by omega) (by omega)]
    have step := appendChildrenExcept_gathers tidy acc (install.above k) (install.above (k + 1))
    rcases Nat.eq_or_lt_of_le (show i ≤ k by omega) with rfl | later
    · refine (splitAround_gathers tidy install key below (by omega) _).holds ?_
      exact appendChildrenExcept_holds tidy keyed beside plain
    · exact ih (by omega) (by omega) (step.keyed keyed) later

end Splitting
end Such.IndexPathPolicy
