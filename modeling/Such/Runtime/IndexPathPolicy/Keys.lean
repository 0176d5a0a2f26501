import Such.Base.LexicalPath.Places
import Such.Runtime.IndexPathPolicy

/-! The keys of Windows places: what the policy compares is a list of folded names, and one key
lies within another when its names begin with the other's. -/
namespace Such.IndexPathPolicy
open ByteText LexicalPath

section Keys

def keyText (slashes : Nat) (parts : List Bytes) : Bytes :=
  List.replicate slashes 47 ++ joinWith 47 parts

/-- What stands between slashes. -/
def IsPart (v : Bytes) : Prop := v ≠ [] ∧ 47 ∉ v

variable {k l : Nat} {ts us : List Bytes}

theorem IsPart.isField {v : Bytes} (part : IsPart v) : IsField FileSystem.isSlash v := by
  refine ⟨part.1, fun b member => ?_⟩
  simp only [FileSystem.isSlash, beq_eq_false_iff_ne]
  rintro rfl
  exact part.2 member

theorem fields_keyText (hts : ∀ t ∈ ts, IsPart t) : fields FileSystem.isSlash (keyText k ts) = ts := by
  have lead : ∀ b ∈ List.replicate k (47 : UInt8), FileSystem.isSlash b = true := by
    intro b member
    rw [List.eq_of_mem_replicate member]
    decide
  rw [keyText, fields_seps_append lead]
  exact fields_joinWith_of_isField (by decide) fun t member => (hts t member).isField

theorem takeWhile_keyText (filled : ts ≠ []) (hts : ∀ t ∈ ts, IsPart t) (rest : Bytes) :
    (keyText k ts ++ rest).takeWhile (· == 47) = List.replicate k 47 := by
  obtain ⟨t, ts, rfl⟩ := List.exists_cons_of_ne_nil filled
  obtain ⟨some_, free⟩ := hts t (by simp)
  obtain ⟨b, v, rfl⟩ := List.exists_cons_of_ne_nil some_
  have other : (b == 47) = false := by
    rw [beq_eq_false_iff_ne]
    rintro rfl
    exact free (by simp)
  have shape : ∃ w, joinWith 47 ((b :: v) :: ts) = b :: w := by
    cases ts with
    | nil => exact ⟨v, rfl⟩
    | cons next ts => exact ⟨v ++ 47 :: joinWith 47 (next :: ts), rfl⟩
  obtain ⟨w, shape⟩ := shape
  rw [keyText, shape, List.append_assoc, List.cons_append,
    @takeWhile_append_stop (· == 47) b other, List.takeWhile_eq_self_iff]
  intro c member
  rw [List.eq_of_mem_replicate member]
  decide

theorem keyText_ne_nil (filled : ts ≠ []) (hts : ∀ t ∈ ts, IsPart t) : keyText k ts ≠ [] := by
  intro empty
  have parts := @fields_keyText k ts hts
  rw [empty, fields_nil] at parts
  exact filled parts.symm

theorem slashes_of_keyText {rest : Bytes} (hts : ts ≠ [] ∧ ∀ t ∈ ts, IsPart t)
    (hus : us ≠ [] ∧ ∀ u ∈ us, IsPart u) (same : keyText k ts = keyText l us ++ rest) : k = l := by
  have left := @takeWhile_keyText k ts hts.1 hts.2 []
  have right := @takeWhile_keyText l us hus.1 hus.2 rest
  rw [List.append_nil, same, right] at left
  simpa using (congrArg List.length left).symm

theorem keyText_inj (hts : ts ≠ [] ∧ ∀ t ∈ ts, IsPart t) (hus : us ≠ [] ∧ ∀ u ∈ us, IsPart u) :
    keyText k ts = keyText l us ↔ k = l ∧ ts = us := by
  constructor
  · intro same
    refine ⟨slashes_of_keyText hts hus (same.trans (List.append_nil _).symm), ?_⟩
    rw [← @fields_keyText k ts hts.2, same, fields_keyText hus.2]
  · rintro ⟨rfl, rfl⟩
    rfl

theorem last_keyText (filled : us ≠ []) (hus : ∀ u ∈ us, IsPart u) :
    (keyText l us).getLast? ≠ some 47 := by
  intro last
  obtain ⟨v, shape⟩ := List.getLast?_eq_some_iff.mp last
  obtain ⟨init, u, below⟩ := (List.eq_nil_or_concat us).resolve_left filled
  rw [List.concat_eq_append] at below
  obtain ⟨some_, free⟩ := hus u (by simp [below])
  obtain ⟨b, found⟩ := Option.ne_none_iff_exists'.mp (mt List.getLast?_eq_none_iff.mp some_)
  have ends : (keyText l us).getLast? = some b := by
    have inner : (joinWith 47 us).getLast? = some b := by
      rw [below]
      by_cases first : init = []
      · rw [first]
        exact found
      · rw [joinWith_append first (by simp), List.getLast?_append, List.getLast?_cons]
        rw [show joinWith 47 [u] = u from rfl, found]
        rfl
    rw [keyText, List.getLast?_append, inner]
    rfl
  rw [ends] at last
  obtain rfl := Option.some.inj last
  exact free (List.mem_of_getLast? found)

/-- A key lies within one that does not end in a slash when it is that key or goes on after it
with a slash. -/
theorem keyIsWithin_iff {candidate parent : Bytes} (filled : parent ≠ [])
    (last : parent.getLast? ≠ some 47) : keyIsWithin candidate parent = true ↔
      candidate = parent ∨ ∃ rest, candidate = parent ++ 47 :: rest := by
  simp only [keyIsWithin]
  split
  · rename_i same
    simp [same]
  · rename_i differ
    split
    · rename_i short
      refine iff_of_false Bool.false_ne_true ?_
      rintro (same | ⟨rest, longer⟩)
      · exact differ same
      · rw [longer] at short
        simp [filled] at short
    · split
      · rename_i other
        refine iff_of_false Bool.false_ne_true ?_
        rintro (same | ⟨rest, longer⟩)
        · exact differ same
        · rw [longer, startsWith, List.isPrefixOf_iff_prefix.mpr (List.prefix_append _ _)] at other
          cases other
      · rename_i starts
        have starts : parent.isPrefixOf candidate = true := by simpa [startsWith] using starts
        obtain ⟨rest, shape⟩ := List.isPrefixOf_iff_prefix.mp starts
        cases rest with
        | nil => exact absurd (shape.symm.trans (List.append_nil _)) differ
        | cons c rest =>
          rw [← shape, List.getElem?_append_right (Nat.le_refl _), Nat.sub_self]
          simp [last, eq_comm]

/-- A key lies within another exactly when it goes on with the other's names. -/
theorem keyIsWithin_keyText (hts : ts ≠ [] ∧ ∀ t ∈ ts, IsPart t)
    (hus : us ≠ [] ∧ ∀ u ∈ us, IsPart u) :
    keyIsWithin (keyText k ts) (keyText l us) = true ↔ k = l ∧ us <+: ts := by
  rw [keyIsWithin_iff (keyText_ne_nil hus.1 hus.2) (last_keyText hus.1 hus.2)]
  constructor
  · rintro (same | ⟨rest, longer⟩)
    · obtain ⟨rfl, rfl⟩ := (keyText_inj hts hus).mp same
      exact ⟨rfl, List.prefix_refl _⟩
    · refine ⟨slashes_of_keyText hts hus longer, ?_⟩
      have parts := @fields_keyText k ts hts.2
      rw [longer, fields_append_sep _ _ (by decide), fields_keyText hus.2] at parts
      exact ⟨_, parts⟩
  · rintro ⟨rfl, more, rfl⟩
    by_cases none : more = []
    · exact .inl (by rw [none, List.append_nil])
    · refine .inr ⟨joinWith 47 more, ?_⟩
      rw [keyText, joinWith_append hus.1 none, keyText, List.append_assoc]

end Keys

section Places

/-- A case mapping goes unit by unit, so it leaves the slashes where they are. -/
structure Folds (fold : Bytes → Bytes) : Prop where
  empty : fold [] = []
  slash : ∀ v w, fold (v ++ 47 :: w) = fold v ++ 47 :: fold w
  part : ∀ v, IsPart v → IsPart (fold v)

variable {fold : Bytes → Bytes}

theorem Folds.joinWith (folds : Folds fold) (ts : List Bytes) :
    fold (joinWith 47 ts) = ByteText.joinWith 47 (ts.map fold) := by
  induction ts with
  | nil => exact folds.empty
  | cons t ts ih =>
    cases ts with
    | nil => rfl
    | cons next ts =>
      change fold (t ++ 47 :: ByteText.joinWith 47 (next :: ts)) = _
      rw [folds.slash, ih]
      rfl

theorem Folds.keyText (folds : Folds fold) (k : Nat) (ts : List Bytes) :
    fold (keyText k ts) = IndexPathPolicy.keyText k (ts.map fold) := by
  induction k with
  | zero => exact folds.joinWith ts
  | succ k ih =>
    have lead := folds.slash [] (IndexPathPolicy.keyText k ts)
    rw [folds.empty, ih] at lead
    exact lead

/-- The folded names of a place, the root's first. -/
def keyParts (fold : Bytes → Bytes) (p : Place) : List Bytes :=
  (rootSegment p.root :: p.names).map fold

theorem isPart_of_plain {v : Bytes} (field : IsField (isSeparator .windows) v) : IsPart v :=
  ⟨field.1, fun member => absurd (field.2 47 member) (by decide)⟩

theorem keyParts_isPart (folds : Folds fold) (p : Place) :
    keyParts fold p ≠ [] ∧ ∀ t ∈ keyParts fold p, IsPart t := by
  refine ⟨by simp [keyParts], ?_⟩
  intro _ member
  obtain ⟨t, inside, rfl⟩ := List.mem_map.mp member
  apply folds.part
  rcases List.mem_cons.mp inside with rfl | name
  · exact isPart_of_plain p.isRoot.segment
  · exact isPart_of_plain (p.named t name).isField

variable {host : WindowsHost} (folds : Folds (Platform.windows host).fold) (p q : Place)
include folds

theorem pathKey_text : pathKey (.windows host) p.text =
    keyText (rootSlashes p.root) (keyParts (Platform.windows host).fold p) := by
  have normal : lexicallyNormal (Platform.windows host).convention p.text = p.text :=
    p.lexicallyNormal_text
  rw [pathKey, normal]
  exact (congrArg _ p.stripTrailing_text).trans (folds.keyText _ _)

theorem pathKey_text_inj : pathKey (.windows host) p.text = pathKey (.windows host) q.text ↔
    rootSlashes p.root = rootSlashes q.root ∧
      keyParts (Platform.windows host).fold p = keyParts (Platform.windows host).fold q := by
  rw [pathKey_text folds, pathKey_text folds, keyText_inj (keyParts_isPart folds p)
    (keyParts_isPart folds q)]

theorem pathIsWithin_text : pathIsWithin (.windows host) p.text q.text = true ↔
    rootSlashes p.root = rootSlashes q.root ∧
      keyParts (Platform.windows host).fold q <+: keyParts (Platform.windows host).fold p := by
  rw [pathIsWithin, pathKey_text folds, pathKey_text folds,
    keyIsWithin_keyText (keyParts_isPart folds p) (keyParts_isPart folds q)]

theorem pathKey_text_ne_nil : pathKey (.windows host) p.text ≠ [] := by
  rw [pathKey_text folds]
  exact keyText_ne_nil (keyParts_isPart folds p).1 (keyParts_isPart folds p).2

end Places
end Such.IndexPathPolicy
