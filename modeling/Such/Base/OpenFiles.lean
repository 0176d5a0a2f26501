import Mathlib.Data.List.Basic
import Mathlib.Logic.Function.Basic

/-! Open file descriptions and their advisory locks. A description lives as long as some
process has a descriptor for it, and at most one description of a file has its lock. -/
namespace OpenFiles
variable {File Process : Type*}

structure Description (File Process : Type*) where
  file : File
  holders : List Process
  locked : Bool
deriving DecidableEq, Repr

/-- The open descriptions by number. Numbers are not used again. -/
structure Table (File Process : Type*) where
  find : Nat → Option (Description File Process)
  next : Nat
  unused : ∀ n, next ≤ n → find n = none
  held : ∀ {n d}, find n = some d → d.holders ≠ []
  exclusive : ∀ {m n d e}, find m = some d → find n = some e → d.locked = true →
    e.locked = true → d.file = e.file → m = n

namespace Table

def empty : Table File Process where
  find _ := none
  next := 0
  unused _ _ := rfl
  held found := by cases found
  exclusive found := by cases found

variable (t : Table File Process)

theorem lt_next {t : Table File Process} {n : Nat} {d : Description File Process}
    (found : t.find n = some d) : n < t.next := by
  by_contra beyond
  rw [t.unused n (Nat.le_of_not_lt beyond)] at found
  cases found

/-- A process has a descriptor for a description of the file, locked or not. -/
def Holds (p : Process) (n : Nat) (f : File) (locked : Bool) : Prop :=
  ∃ holders, t.find n = some ⟨f, holders, locked⟩ ∧ p ∈ holders

variable {t : Table File Process} {p q : Process} {m n : Nat} {f g : File} {l k : Bool}

theorem Holds.lt_next (holds : t.Holds p n f l) : n < t.next :=
  let ⟨_, found, _⟩ := holds
  Table.lt_next found

theorem Holds.unique (holds : t.Holds p n f l) (other : t.Holds q n g k) : f = g ∧ l = k := by
  obtain ⟨_, found, -⟩ := holds
  obtain ⟨_, again, -⟩ := other
  rw [found] at again
  cases again
  exact ⟨rfl, rfl⟩

/-- Two locked descriptions are of different files. -/
theorem Holds.exclusive (holds : t.Holds p m f true) (other : t.Holds q n f true) : m = n := by
  obtain ⟨_, found, -⟩ := holds
  obtain ⟨_, again, -⟩ := other
  exact t.exclusive found again rfl rfl rfl

theorem exists_holds {d : Description File Process} (found : t.find n = some d) :
    ∃ p, t.Holds p n d.file d.locked :=
  let ⟨p, member⟩ := List.exists_mem_of_ne_nil _ (t.held found)
  ⟨p, d.holders, found, member⟩

theorem not_holds_empty : ¬ (empty : Table File Process).Holds p n f l := by
  rintro ⟨_, found, -⟩
  cases found

variable (t)

/-- Every description is rewritten or closed; none changes its file or gains the lock. -/
def rewrite (g : Nat → Description File Process → Option (Description File Process))
    (keeps : ∀ {n d e}, t.find n = some d → g n d = some e →
      e.file = d.file ∧ (e.locked = true → d.locked = true) ∧ e.holders ≠ []) :
    Table File Process where
  find n := (t.find n).bind (g n)
  next := t.next
  unused n beyond := by rw [t.unused n beyond, Option.bind_none]
  held found := by
    obtain ⟨d, before, rewritten⟩ := Option.bind_eq_some_iff.1 found
    exact (keeps before rewritten).2.2
  exclusive := by
    intro m n d' e' foundD foundE lockedD lockedE same
    obtain ⟨d, beforeD, rewrittenD⟩ := Option.bind_eq_some_iff.1 foundD
    obtain ⟨e, beforeE, rewrittenE⟩ := Option.bind_eq_some_iff.1 foundE
    obtain ⟨fileD, keptD, -⟩ := keeps beforeD rewrittenD
    obtain ⟨fileE, keptE, -⟩ := keeps beforeE rewrittenE
    exact t.exclusive beforeD beforeE (keptD lockedD) (keptE lockedE)
      (fileD.symm.trans (same.trans fileE))

/-- The lock is given back by whichever process asks, also where others hold the description. -/
def unlock (n : Nat) : Table File Process :=
  t.rewrite (fun m d => some (if m = n then { d with locked := false } else d)) (by
    intro m d e found rewritten
    obtain rfl := Option.some.inj rewritten
    split
    · exact ⟨rfl, fun locked => absurd locked Bool.false_ne_true, t.held (d := d) found⟩
    · exact ⟨rfl, id, t.held found⟩)

theorem holds_unlock {t : Table File Process} : (t.unlock n).Holds q m f l ↔
    (m ≠ n ∧ t.Holds q m f l) ∨ (m = n ∧ l = false ∧ ∃ before, t.Holds q m f before) := by
  simp only [Holds, unlock, rewrite, Option.bind_eq_some_iff, Option.some.injEq]
  by_cases same : m = n
  · simp only [same, ne_eq, not_true_eq_false, false_and, if_true, true_and, false_or]
    constructor
    · rintro ⟨holders, ⟨⟨file, before, locked⟩, found, same⟩, member⟩
      cases same
      exact ⟨rfl, locked, before, found, member⟩
    · rintro ⟨rfl, locked, holders, found, member⟩
      exact ⟨holders, ⟨_, found, rfl⟩, member⟩
  · simp [same]

section Closing
variable [DecidableEq Process]

/-- What is left of a description when a process closes its descriptor. -/
def drop (p : Process) (d : Description File Process) : Option (Description File Process) :=
  let left := d.holders.filter (· ≠ p)
  if left = [] then none else some { d with holders := left }

theorem drop_eq_some_iff {p : Process} {d e : Description File Process} :
    drop p d = some e ↔
      d.holders.filter (· ≠ p) ≠ [] ∧ { d with holders := d.holders.filter (· ≠ p) } = e := by
  simp only [drop, Option.ite_none_left_eq_some, Option.some.injEq, ne_eq]

theorem holds_drop {x : Option (Description File Process)} :
    (∃ holders, (∃ d, x = some d ∧ drop p d = some ⟨f, holders, l⟩) ∧ q ∈ holders) ↔
      (∃ holders, x = some ⟨f, holders, l⟩ ∧ q ∈ holders) ∧ q ≠ p := by
  constructor
  · rintro ⟨_, ⟨d, rfl, left⟩, member⟩
    obtain ⟨-, same⟩ := drop_eq_some_iff.1 left
    obtain ⟨file, holders, locked⟩ := d
    cases same
    obtain ⟨before, other⟩ := List.mem_filter.1 member
    exact ⟨⟨holders, rfl, before⟩, of_decide_eq_true other⟩
  · rintro ⟨⟨holders, rfl, member⟩, other⟩
    have remains : q ∈ holders.filter (· ≠ p) := List.mem_filter.2 ⟨member, decide_eq_true other⟩
    exact ⟨_, ⟨_, rfl, drop_eq_some_iff.2 ⟨List.ne_nil_of_mem remains, rfl⟩⟩, remains⟩

def close (p : Process) (n : Nat) : Table File Process :=
  t.rewrite (fun m d => if m = n then drop p d else some d) (by
    intro m d e found rewritten
    split at rewritten
    · obtain ⟨some, rfl⟩ := drop_eq_some_iff.1 rewritten
      exact ⟨rfl, id, some⟩
    · cases rewritten
      exact ⟨rfl, id, t.held found⟩)

theorem holds_close {t : Table File Process} :
    (t.close p n).Holds q m f l ↔ t.Holds q m f l ∧ (m = n → q ≠ p) := by
  simp only [Holds, close, rewrite, Option.bind_eq_some_iff]
  by_cases same : m = n
  · simp only [same, if_true, forall_const]
    exact holds_drop
  · simp [same]

/-- A process ends, or its program is replaced and its descriptors close with it. -/
def closeAll (p : Process) : Table File Process :=
  t.rewrite (fun _ d => drop p d) (by
    intro m d e found rewritten
    obtain ⟨some, rfl⟩ := drop_eq_some_iff.1 rewritten
    exact ⟨rfl, id, some⟩)

theorem holds_closeAll {t : Table File Process} :
    (t.closeAll p).Holds q m f l ↔ t.Holds q m f l ∧ q ≠ p := by
  simp only [Holds, closeAll, rewrite, Option.bind_eq_some_iff]
  exact holds_drop

/-- A new process gets a descriptor for every description its parent has one for. -/
def duplicate (p child : Process) : Table File Process :=
  t.rewrite (fun _ d => some (if p ∈ d.holders then { d with holders := child :: d.holders } else d))
    (by
      intro m d e found rewritten
      obtain rfl := Option.some.inj rewritten
      split
      · exact ⟨rfl, id, List.cons_ne_nil _ _⟩
      · exact ⟨rfl, id, t.held found⟩)

theorem holds_duplicate {t : Table File Process} {child : Process} :
    (t.duplicate p child).Holds q m f l ↔ t.Holds q m f l ∨ (q = child ∧ t.Holds p m f l) := by
  simp only [Holds, duplicate, rewrite, Option.bind_eq_some_iff, Option.some.injEq]
  constructor
  · rintro ⟨after, ⟨⟨file, holders, locked⟩, found, same⟩, member⟩
    by_cases parent : p ∈ holders
    · rw [if_pos parent] at same
      cases same
      rcases List.mem_cons.1 member with rfl | member
      · exact .inr ⟨rfl, holders, found, parent⟩
      · exact .inl ⟨holders, found, member⟩
    · rw [if_neg parent] at same
      cases same
      exact .inl ⟨_, found, member⟩
  · rintro (⟨holders, found, member⟩ | ⟨rfl, holders, found, parent⟩)
    · by_cases parent : p ∈ holders
      · exact ⟨_, ⟨_, found, if_pos parent⟩, List.mem_cons_of_mem _ member⟩
      · exact ⟨_, ⟨_, found, if_neg parent⟩, member⟩
    · exact ⟨_, ⟨_, found, if_pos parent⟩, List.mem_cons_self⟩

end Closing

section Locking
variable [DecidableEq File]

/-- Some description of the file, other than the numbered one, passes the test. -/
def someOther (test : Description File Process → Bool) (f : File) (n : Nat) : Bool :=
  (List.range t.next).any fun m =>
    m != n && (t.find m).any fun d => decide (d.file = f) && test d

theorem someOther_iff {t : Table File Process} {test : Description File Process → Bool} {f : File}
    {n : Nat} : t.someOther test f n = true ↔
      ∃ m d, m ≠ n ∧ t.find m = some d ∧ d.file = f ∧ test d = true := by
  simp only [someOther, List.any_eq_true, List.mem_range, Bool.and_eq_true, bne_iff_ne, ne_eq,
    Option.any_eq_true, decide_eq_true_eq]
  constructor
  · rintro ⟨m, -, other, d, found, same, passes⟩
    exact ⟨m, d, other, found, same, passes⟩
  · rintro ⟨m, d, other, found, same, passes⟩
    exact ⟨m, lt_next found, other, d, found, same, passes⟩

/-- A new description of a file. It has the lock where no other description is open. -/
def insert (f : File) (p : Process) (locked : Bool)
    (allowed : locked = true → t.someOther (fun d => d.locked) f t.next = false) :
    Table File Process where
  find m := if m = t.next then some { file := f, holders := [p], locked } else t.find m
  next := t.next + 1
  unused m beyond := by
    rw [if_neg (by omega), t.unused m (by omega)]
  held found := by
    split at found
    · obtain rfl := Option.some.inj found
      exact List.cons_ne_nil _ _
    · exact t.held found
  exclusive := by
    intro m n d e foundD foundE lockedD lockedE same
    -- a locked description of the same file would have been seen
    have alone : locked = true → ∀ {k : Nat} {x : Description File Process},
        t.find k = some x → x.locked = true → x.file ≠ f := by
      intro taken k x found lockedX file
      have seen : t.someOther (fun d => d.locked) f t.next = true :=
        someOther_iff.2 ⟨k, x, Nat.ne_of_lt (lt_next found), found, file, lockedX⟩
      rw [allowed taken] at seen
      cases seen
    split at foundD <;> split at foundE
    · omega
    · obtain rfl := Option.some.inj foundD
      exact absurd same.symm (alone lockedD foundE lockedE)
    · obtain rfl := Option.some.inj foundE
      exact absurd same (alone lockedE foundD lockedD)
    · exact t.exclusive foundD foundE lockedD lockedE same

def openFile (f : File) (p : Process) : Table File Process :=
  t.insert f p false fun locked => absurd locked Bool.false_ne_true

/-- The lock comes with the description that finds no other one open. -/
def openExclusively (f : File) (p : Process) : Table File Process :=
  t.insert f p (!t.someOther (fun _ => true) f t.next) (by
    intro alone
    rw [Bool.not_eq_true', Bool.eq_false_iff, ne_eq, someOther_iff] at alone
    rw [Bool.eq_false_iff, ne_eq, someOther_iff]
    rintro ⟨m, d, other, found, same, -⟩
    exact alone ⟨m, d, other, found, same, rfl⟩)

/-- The lock for a description, unless another description of its file has it. -/
def tryLock (n : Nat) : Option (Table File Process) :=
  match found : t.find n with
  | none => none
  | some d =>
    if free : t.someOther (fun e => e.locked) d.file n = true then none
    else some {
      find := fun m => if m = n then some { d with locked := true } else t.find m
      next := t.next
      unused := by
        intro m beyond
        rw [if_neg (by have := lt_next found; omega), t.unused m beyond]
      held := by
        intro m e after
        split at after
        · obtain rfl := Option.some.inj after
          exact t.held (d := d) found
        · exact t.held after
      exclusive := by
        intro k m x y foundX foundY lockedX lockedY same
        have alone : ∀ {j : Nat} {z : Description File Process}, j ≠ n → t.find j = some z →
            z.locked = true → z.file ≠ d.file := fun other foundZ lockedZ file =>
          free (someOther_iff.2 ⟨_, _, other, foundZ, file, lockedZ⟩)
        split at foundX <;> split at foundY
        · omega
        · obtain rfl := Option.some.inj foundX
          exact absurd same.symm (alone ‹_› foundY lockedY)
        · obtain rfl := Option.some.inj foundY
          exact absurd same (alone ‹_› foundX lockedX)
        · exact t.exclusive foundX foundY lockedX lockedY same }

theorem holds_insert {t : Table File Process} {locked : Bool}
    {allowed : locked = true → t.someOther (fun d => d.locked) f t.next = false} :
    (t.insert f p locked allowed).Holds q m g l ↔
      t.Holds q m g l ∨ (m = t.next ∧ q = p ∧ g = f ∧ l = locked) := by
  simp only [Holds, insert]
  by_cases last : m = t.next
  · subst last
    rw [if_pos rfl, t.unused _ (Nat.le_refl _)]
    constructor
    · rintro ⟨holders, same, member⟩
      cases same
      exact .inr ⟨rfl, List.mem_singleton.1 member, rfl, rfl⟩
    · rintro (⟨_, found, -⟩ | ⟨-, rfl, rfl, rfl⟩)
      · cases found
      · exact ⟨_, rfl, List.mem_singleton_self _⟩
  · simp [last]

theorem holds_openFile {t : Table File Process} : (t.openFile f p).Holds q m g l ↔
    t.Holds q m g l ∨ (m = t.next ∧ q = p ∧ g = f ∧ l = false) := holds_insert

theorem holds_openExclusively {t : Table File Process} :
    (t.openExclusively f p).Holds q m g l ↔ t.Holds q m g l ∨
      (m = t.next ∧ q = p ∧ g = f ∧ l = !t.someOther (fun _ => true) f t.next) := holds_insert

theorem tryLock_eq_none_iff {t : Table File Process} (holds : t.Holds p n f l) :
    t.tryLock n = none ↔ ∃ q m, m ≠ n ∧ t.Holds q m f true := by
  obtain ⟨holders, found, -⟩ := holds
  have blocked : t.tryLock n = none ↔ t.someOther (fun e => e.locked) f n = true := by
    rw [tryLock]
    split <;> rename_i again <;> rw [found] at again <;> cases again
    split <;> rename_i free <;> simp [free]
  rw [blocked, someOther_iff]
  constructor
  · rintro ⟨m, e, other, again, rfl, locked⟩
    obtain ⟨q, holds⟩ := exists_holds again
    rw [locked] at holds
    exact ⟨q, m, other, holds⟩
  · rintro ⟨q, m, other, holders, found, -⟩
    exact ⟨m, _, other, found, rfl, rfl⟩

theorem holds_tryLock {t u : Table File Process} (took : t.tryLock n = some u) :
    u.next = t.next ∧ ∀ q m f l, u.Holds q m f l ↔
      (m ≠ n ∧ t.Holds q m f l) ∨ (m = n ∧ l = true ∧ ∃ before, t.Holds q m f before) := by
  rw [tryLock] at took
  split at took
  · cases took
  rename_i d found
  split at took
  · cases took
  obtain rfl := Option.some.inj took
  refine ⟨rfl, fun q m f l => ?_⟩
  simp only [Holds]
  by_cases same : m = n
  · subst same
    simp only [if_true, found, Option.some.injEq, ne_eq, not_true_eq_false, false_and, true_and,
      false_or]
    constructor
    · rintro ⟨holders, same, member⟩
      cases same
      exact ⟨rfl, d.locked, d.holders, rfl, member⟩
    · rintro ⟨rfl, locked, holders, rfl, member⟩
      exact ⟨holders, rfl, member⟩
  · simp [same]

end Locking

end Table
end OpenFiles
