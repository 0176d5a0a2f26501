import Such.Ui.FrontendLease

/-! Between any two steps of any processes at most one lease has a lock file's lock, and
nothing is open that a lease, a call or a forked process does not account for. -/
namespace Such.FrontendLease
open ByteText LexicalPath OpenFiles
variable {File : Type*} {c : Convention} {s : System File} {k : Nat × Nat} {slot : Slot}
variable {t u : Table File Nat} {p n : Nat}

/-- A variable's descriptor is one its process has. A lease's has the lock, and exactly the
acquired leases of desktop frontends have one. -/
def Slot.Fits (c : Convention) (t : Table File Nat) (p : Nat) : Slot → Prop
  | .vacant => True
  | .opening n => ∃ f locked, t.Holds p n f locked ∧ (c = .posix → locked = false)
  | .lease l => (∀ n, l.fd = some n → ∃ f, t.Holds p n f true) ∧
      (l.fd.isSome ↔ l.acquired = true ∧ l.mode = .gui)

theorem Slot.Fits.mono (fits : slot.Fits c t p)
    (keeps : ∀ n f l, slot.fd = some n → t.Holds p n f l → u.Holds p n f l) : slot.Fits c u p := by
  cases slot with
  | vacant => trivial
  | opening n =>
    obtain ⟨f, l, holds, unlocked⟩ := fits
    exact ⟨f, l, keeps n f l rfl holds, unlocked⟩
  | lease l =>
    refine ⟨fun n uses => ?_, fits.2⟩
    obtain ⟨f, holds⟩ := fits.1 n uses
    exact ⟨f, keeps n f true uses holds⟩

theorem Slot.fits_bare {l : Lease} (bare : l.fd = none)
    (idle : ¬ (l.acquired = true ∧ l.mode = .gui)) : (Slot.lease l).Fits c t p := by
  constructor
  · intro n uses
    rw [bare] at uses
    cases uses
  · exact iff_of_false (by simp [bare]) idle

theorem Slot.Fits.holds (fits : slot.Fits c t p) (uses : slot.fd = some n) :
    ∃ f l, t.Holds p n f l := by
  cases slot with
  | vacant => cases uses
  | opening m =>
    cases uses
    obtain ⟨f, l, holds, -⟩ := fits
    exact ⟨f, l, holds⟩
  | lease l =>
    obtain ⟨f, holds⟩ := fits.1 n uses
    exact ⟨f, true, holds⟩

/-- What holds between the steps of the processes. -/
structure Consistent (c : Convention) (s : System File) : Prop where
  running : ∀ {k}, s.slots k ≠ .vacant → s.status k.1 = .frontend
  present : ∀ {p n f l}, s.table.Holds p n f l → s.status p ≠ .absent
  accounted : ∀ {p n f l}, s.status p = .frontend → s.table.Holds p n f l →
    ∃ v, (s.slots (p, v)).fd = some n
  sole : ∀ {j k n}, (s.slots j).fd = some n → (s.slots k).fd = some n → j = k
  fits : ∀ k, (s.slots k).Fits c s.table k.1

theorem Consistent.initial : Consistent c ({} : System File) where
  running differs := absurd rfl differs
  present holds := absurd holds Table.not_holds_empty
  accounted running _ := nomatch running
  sole uses _ := nomatch uses
  fits _ := trivial

theorem slots_put_self : (s.put k slot t).slots k = slot := Function.update_self ..

theorem slots_put_of_ne {j : Nat × Nat} (other : j ≠ k) :
    (s.put k slot t).slots j = s.slots j := Function.update_of_ne other ..

theorem Consistent.put (ok : Consistent c s) (active : s.status k.1 = .frontend)
    (fits : slot.Fits c t k.1)
    (fresh : ∀ j n, j ≠ k → (s.slots j).fd = some n → slot.fd ≠ some n)
    (before : ∀ q m f l, t.Holds q m f l → (q = k.1 ∧ slot.fd = some m) ∨
      ((q = k.1 → (s.slots k).fd ≠ some m) ∧ ∃ l, s.table.Holds q m f l))
    (after : ∀ j m f l, j ≠ k → (s.slots j).fd = some m → s.table.Holds j.1 m f l →
      t.Holds j.1 m f l) :
    Consistent c (s.put k slot t) := by
  constructor
  · intro j occupied
    by_cases same : j = k
    · exact same ▸ active
    · rw [slots_put_of_ne same] at occupied
      exact ok.running occupied
  · intro q m f l holds
    rcases before q m f l holds with ⟨rfl, -⟩ | ⟨-, l, earlier⟩
    · intro absent
      exact nomatch active.symm.trans absent
    · exact ok.present earlier
  · intro q m f l running holds
    rcases before q m f l holds with ⟨rfl, uses⟩ | ⟨released, l, earlier⟩
    · exact ⟨k.2, by rw [slots_put_self, uses]⟩
    · obtain ⟨v, uses⟩ := ok.accounted running earlier
      refine ⟨v, ?_⟩
      rw [slots_put_of_ne (by rintro rfl; exact released rfl uses)]
      exact uses
  · intro i j m usesI usesJ
    by_cases sameI : i = k <;> by_cases sameJ : j = k
    · rw [sameI, sameJ]
    · rw [sameI, slots_put_self] at usesI
      rw [slots_put_of_ne sameJ] at usesJ
      exact absurd usesI (fresh j m sameJ usesJ)
    · rw [slots_put_of_ne sameI] at usesI
      rw [sameJ, slots_put_self] at usesJ
      exact absurd usesJ (fresh i m sameI usesI)
    · rw [slots_put_of_ne sameI] at usesI
      rw [slots_put_of_ne sameJ] at usesJ
      exact ok.sole usesI usesJ
  · intro j
    by_cases same : j = k
    · rw [same, slots_put_self]
      exact fits
    · rw [slots_put_of_ne same]
      exact (ok.fits j).mono fun m f l => after j m f l same

/-- A variable loses its descriptor. -/
theorem Consistent.clear (ok : Consistent c s) (active : s.status k.1 = .frontend)
    (bare : slot.fd = none) (fits : slot.Fits c t k.1)
    (others : ∀ q m f l, (s.slots k).fd ≠ some m → (t.Holds q m f l ↔ s.table.Holds q m f l))
    (closed : ∀ q m f l, (s.slots k).fd = some m → t.Holds q m f l →
      q ≠ k.1 ∧ ∃ before, s.table.Holds q m f before) :
    Consistent c (s.put k slot t) := by
  refine ok.put active fits (fun j n _ _ => by simp [bare]) ?_ ?_
  · intro q m f l holds
    by_cases mine : (s.slots k).fd = some m
    · obtain ⟨other, earlier⟩ := closed q m f l mine holds
      exact .inr ⟨fun same => absurd same other, earlier⟩
    · exact .inr ⟨fun _ => mine, l, (others q m f l mine).1 holds⟩
  · intro j m f l other uses holds
    exact (others _ _ _ _ fun mine => other (ok.sole uses mine)).2 holds

/-- A variable gets a new description, which its process alone has a descriptor for. -/
theorem Consistent.gain (ok : Consistent c s) (active : s.status k.1 = .frontend)
    (free : (s.slots k).fd = none) {f : File} {locked : Bool}
    (unlocked : c = .posix → locked = false)
    (adds : ∀ q m g l, t.Holds q m g l ↔
      s.table.Holds q m g l ∨ (m = s.table.next ∧ q = k.1 ∧ g = f ∧ l = locked)) :
    Consistent c (s.put k (.opening s.table.next) t) := by
  refine ok.put active ⟨f, locked, (adds _ _ _ _).2 (.inr ⟨rfl, rfl, rfl, rfl⟩), unlocked⟩ ?_ ?_ ?_
  · intro j n _ uses new
    obtain ⟨_, _, holds⟩ := (ok.fits j).holds uses
    cases new
    exact absurd holds.lt_next (Nat.lt_irrefl _)
  · intro q m g l holds
    rcases (adds q m g l).1 holds with earlier | ⟨rfl, rfl, -⟩
    · exact .inr ⟨fun _ => by simp [free], l, earlier⟩
    · exact .inl ⟨rfl, rfl⟩
  · intro j m g l _ _ holds
    exact (adds _ _ _ _).2 (.inl holds)

/-- A call's descriptor becomes that of its lease, with the lock. -/
theorem Consistent.settle (ok : Consistent c s) (opening : s.slots k = .opening n)
    (locks : ∀ q m f l, t.Holds q m f l ↔
      (m ≠ n ∧ s.table.Holds q m f l) ∨ (m = n ∧ l = true ∧ ∃ before, s.table.Holds q m f before)) :
    Consistent c (s.put k (.lease { acquired := true, fd := some n }) t) := by
  have mine : (s.slots k).fd = some n := by rw [opening]; rfl
  have active : s.status k.1 = .frontend :=
    ok.running (by rw [opening]; exact Slot.noConfusion)
  refine ok.put active ⟨?_, by simp⟩ ?_ ?_ ?_
  · intro m uses
    cases uses
    obtain ⟨f, l, holds⟩ := (ok.fits k).holds mine
    exact ⟨f, (locks _ _ _ _).2 (.inr ⟨rfl, rfl, l, holds⟩)⟩
  · intro j m other uses same
    cases same
    exact other (ok.sole uses mine)
  · intro q m f l holds
    have earlier : ∃ l, s.table.Holds q m f l := by
      rcases (locks q m f l).1 holds with ⟨-, earlier⟩ | ⟨-, -, earlier⟩
      · exact ⟨l, earlier⟩
      · exact earlier
    by_cases same : q = k.1 ∧ m = n
    · exact .inl ⟨same.1, congrArg some same.2.symm⟩
    · refine .inr ⟨fun own uses => same ⟨own, ?_⟩, earlier⟩
      exact Option.some.inj (uses.symm.trans mine)
  · intro j m f l other uses holds
    refine (locks _ _ _ _).2 (.inl ⟨?_, holds⟩)
    rintro rfl
    exact other (ok.sole uses mine)

/-- A lease moves into a variable that has no descriptor. -/
theorem Consistent.transfer (ok : Consistent c s) {v w : Nat} {l : Lease} (differ : v ≠ w)
    (source : s.slots (p, w) = .lease l) (free : (s.slots (p, v)).fd = none)
    (bare : slot.fd = none) (fits : slot.Fits c s.table p) :
    Consistent c ((s.put (p, v) (.lease l) s.table).put (p, w) slot s.table) := by
  have active : s.status p = .frontend := ok.running (k := (p, w)) (by simp [source])
  have keys : (p, v) ≠ (p, w) := by simp [differ]
  have users : ∀ j, (((s.put (p, v) (.lease l) s.table).put (p, w) slot s.table).slots j).fd =
      (s.slots (Equiv.swap (p, v) (p, w) j)).fd := by
    intro j
    by_cases second : j = (p, w)
    · rw [second, slots_put_self, bare, Equiv.swap_apply_right, free]
    · rw [slots_put_of_ne second]
      by_cases first : j = (p, v)
      · rw [first, slots_put_self, Equiv.swap_apply_left, source]
      · rw [slots_put_of_ne first, Equiv.swap_apply_of_ne_of_ne first second]
  constructor
  · intro j occupied
    by_cases here : j.1 = p
    · exact here ▸ active
    · rw [slots_put_of_ne (by rintro rfl; exact here rfl),
        slots_put_of_ne (by rintro rfl; exact here rfl)] at occupied
      exact ok.running occupied
  · exact ok.present
  · intro q m f b running holds
    obtain ⟨x, uses⟩ := ok.accounted running holds
    have process : (Equiv.swap (p, v) (p, w) (q, x)).1 = q := by
      rw [Equiv.swap_apply_def]
      split_ifs with first second
      · exact (congrArg Prod.fst first).symm
      · exact (congrArg Prod.fst second).symm
      · rfl
    refine ⟨(Equiv.swap (p, v) (p, w) (q, x)).2, ?_⟩
    have key : (q, (Equiv.swap (p, v) (p, w) (q, x)).2) = Equiv.swap (p, v) (p, w) (q, x) :=
      Prod.ext process.symm rfl
    rw [users, key, Equiv.swap_apply_self]
    exact uses
  · intro i j m usesI usesJ
    rw [users] at usesI usesJ
    exact (Equiv.swap (p, v) (p, w)).injective (ok.sole usesI usesJ)
  · intro j
    by_cases second : j = (p, w)
    · rw [second, slots_put_self]
      exact fits
    · rw [slots_put_of_ne second]
      by_cases first : j = (p, v)
      · rw [first, slots_put_self]
        have before := ok.fits (p, w)
        rw [source] at before
        exact before
      · rw [slots_put_of_ne first]
        exact ok.fits j

section Statuses
variable {status : Status} {q : Nat}

theorem status_setStatus_self : (s.setStatus p status t).status p = status :=
  Function.update_self ..

theorem status_setStatus_of_ne (other : q ≠ p) : (s.setStatus p status t).status q = s.status q :=
  Function.update_of_ne other ..

theorem slots_setStatus_self (here : k.1 = p) : (s.setStatus p status t).slots k = .vacant :=
  if_pos here

theorem slots_setStatus_of_ne (other : k.1 ≠ p) :
    (s.setStatus p status t).slots k = s.slots k := if_neg other

/-- A process starts, is forked or ends; it has no variables. -/
theorem Consistent.setStatus (ok : Consistent c s)
    (others : ∀ q m f l, q ≠ p → (t.Holds q m f l ↔ s.table.Holds q m f l))
    (own : ∀ m f l, t.Holds p m f l → status = .forked) :
    Consistent c (s.setStatus p status t) := by
  have users : ∀ {k n}, ((s.setStatus p status t).slots k).fd = some n → (s.slots k).fd = some n := by
    intro k n uses
    by_cases here : k.1 = p
    · rw [slots_setStatus_self here] at uses
      cases uses
    · rwa [slots_setStatus_of_ne here] at uses
  constructor
  · intro k occupied
    by_cases here : k.1 = p
    · exact absurd (slots_setStatus_self here) occupied
    · rw [slots_setStatus_of_ne here] at occupied
      rw [status_setStatus_of_ne here]
      exact ok.running occupied
  · intro q m f l holds
    by_cases here : q = p
    · subst here
      rw [status_setStatus_self, own m f l holds]
      exact Status.noConfusion
    · rw [status_setStatus_of_ne here]
      exact ok.present ((others q m f l here).1 holds)
  · intro q m f l running holds
    by_cases here : q = p
    · subst here
      rw [status_setStatus_self, own m f l holds] at running
      cases running
    · rw [status_setStatus_of_ne here] at running
      obtain ⟨v, uses⟩ := ok.accounted running ((others q m f l here).1 holds)
      exact ⟨v, by rw [slots_setStatus_of_ne here, uses]⟩
  · exact fun usesI usesJ => ok.sole (users usesI) (users usesJ)
  · intro k
    by_cases here : k.1 = p
    · rw [slots_setStatus_self here]
      trivial
    · rw [slots_setStatus_of_ne here]
      exact (ok.fits k).mono fun m f l _ => (others k.1 m f l here).2

end Statuses

section Operations
variable {q m : Nat} {f : File} {l : Bool}

theorem holds_release (c : Convention) {lease : Lease} (shaped : lease.fd.isSome → lease.acquired) :
    (lease.fd ≠ some m → ((release c p lease t).2.Holds q m f l ↔ t.Holds q m f l)) ∧
    (lease.fd = some m → (release c p lease t).2.Holds q m f l →
      q ≠ p ∧ ∃ before, t.Holds q m f before) := by
  cases uses : lease.fd with
  | none =>
    have same : (release c p lease t).2 = t := by
      simp only [release, uses]
      split <;> rfl
    rw [same]
    exact ⟨fun _ => Iff.rfl, fun impossible => nomatch impossible⟩
  | some fd =>
    have acquired : lease.acquired = true := shaped (by simp [uses])
    have closed : (release c p lease t).2 = closeLock c p fd t := by
      simp only [release, uses, acquired, Bool.not_true, Bool.false_eq_true, if_false]
    rw [closed]
    constructor
    · intro other
      have differs : m ≠ fd := fun same => other (congrArg some same.symm)
      cases c <;> simp [closeLock, Table.holds_close, Table.holds_unlock, differs]
    · intro same
      cases same
      cases c with
      | posix =>
        simp only [closeLock, Table.holds_close, Table.holds_unlock, ne_eq, not_true_eq_false,
          false_and, true_and, false_or, forall_const, and_imp]
        exact fun _ before other => ⟨other, before⟩
      | windows =>
        simp only [closeLock, Table.holds_close, forall_const, ne_eq, and_imp]
        exact fun before other => ⟨other, l, before⟩

variable [DecidableEq File]

/-- A new description that its own call closes again leaves nothing behind. -/
theorem holds_close_openFile {g : File} :
    ((t.openFile g p).close p t.next).Holds q m f l ↔ t.Holds q m f l := by
  rw [Table.holds_close, Table.holds_openFile]
  constructor
  · rintro ⟨before | ⟨last, same, -⟩, other⟩
    · exact before
    · exact absurd same (other last)
  · intro before
    exact ⟨.inl before, fun last => absurd (last ▸ before.lt_next) (Nat.lt_irrefl _)⟩

theorem openLock_cases (a : Answers File) (p : Nat) (t : Table File Nat) :
    (∃ error u, openLock a p t = (.error error, u) ∧
      ∀ q m f l, u.Holds q m f l ↔ t.Holds q m f l) ∨
    ∃ directory f, lockDirectory a = .ok directory ∧ a.openLock (lockPath directory) = some f ∧
      openLock a p t = (.ok t.next, t.openFile f p) := by
  unfold openLock
  split
  · exact .inl ⟨_, t, rfl, fun _ _ _ _ => Iff.rfl⟩
  rename_i directory safe
  split
  · exact .inl ⟨_, t, rfl, fun _ _ _ _ => Iff.rfl⟩
  rename_i f opened
  by_cases own : (a.fstat f).any (fun st => st.regular && st.uid == a.uid) = true
  · exact .inr ⟨directory, f, safe, opened, if_pos own⟩
  · rw [if_neg own]
    exact .inl ⟨_, _, rfl, fun _ _ _ _ => holds_close_openFile⟩

/-- A call ends with no descriptor, or has a new one, on POSIX without the lock. -/
theorem beginAcquire_cases (mode : FrontendMode) (host : Host File) (p : Nat) (t : Table File Nat) :
    (∃ lease, (beginAcquire mode host p t).1 = .lease lease ∧ lease.fd = none ∧
      ¬ (lease.acquired = true ∧ lease.mode = .gui) ∧
      ∀ q m f l, (beginAcquire mode host p t).2.Holds q m f l ↔ t.Holds q m f l) ∨
    ((beginAcquire mode host p t).1 = .opening t.next ∧ mode = .gui ∧
      ∃ f locked, host.opens f ∧
        (host.convention = .posix → locked = false) ∧
        (host.convention = .windows → locked = !t.someOther (fun _ => true) f t.next) ∧
        ∀ q m g l, (beginAcquire mode host p t).2.Holds q m g l ↔
          t.Holds q m g l ∨ (m = t.next ∧ q = p ∧ g = f ∧ l = locked)) := by
  unfold beginAcquire
  by_cases other : mode ≠ .gui
  · rw [if_pos other]
    exact .inl ⟨_, rfl, rfl, fun both => other both.2, fun _ _ _ _ => Iff.rfl⟩
  rw [if_neg other]
  cases host with
  | posix a =>
    rcases openLock_cases a p t with ⟨error, u, failed, same⟩ | ⟨directory, f, safe, opens, done⟩
    · refine .inl ⟨{ error := error }, ?_, rfl, by simp, ?_⟩
      · simp only [opened, failed]
      · simpa only [opened, failed] using same
    · refine .inr ⟨?_, not_not.1 other, f, false, ⟨directory, safe, opens⟩, fun _ => rfl, nofun, ?_⟩
      · simp only [opened, done]
      · simp only [opened, done]
        exact fun _ _ _ _ => Table.holds_openFile
  | windows mutex =>
    cases mutex with
    | none => exact .inl ⟨_, rfl, rfl, by simp, fun _ _ _ _ => Iff.rfl⟩
    | some f =>
      exact .inr ⟨rfl, not_not.1 other, f, _, rfl, nofun, fun _ => rfl, fun _ _ _ _ =>
        Table.holds_openExclusively⟩

/-- A call gives its descriptor back, or its lease keeps it with the lock. -/
theorem concludeAcquire_cases (interrupted : Bool) (holds : t.Holds p n f l) :
    (∃ lease, lease.fd = none ∧ lease.acquired = false ∧
      concludeAcquire c interrupted p n t = (lease, t.close p n)) ∨
    ∃ u, concludeAcquire c interrupted p n t = ({ acquired := true, fd := some n }, u) ∧
      ∀ q m f l, u.Holds q m f l ↔
        (m ≠ n ∧ t.Holds q m f l) ∨ (m = n ∧ l = true ∧ ∃ before, t.Holds q m f before) := by
  cases c with
  | posix =>
    cases interrupted with
    | true => exact .inl ⟨_, rfl, rfl, rfl⟩
    | false =>
      cases locked : t.tryLock n with
      | none => exact .inl ⟨{ error := anotherRuns }, rfl, rfl, by simp [concludeAcquire, locked]⟩
      | some u =>
        exact .inr ⟨u, by simp [concludeAcquire, locked], (Table.holds_tryLock locked).2⟩
  | windows =>
    by_cases made : (t.find n).any (·.locked) = true
    · refine .inr ⟨t, if_pos made, fun q m g k => ?_⟩
      have first : ∀ {q g k}, t.Holds q n g k → k = true := by
        rintro q g k ⟨_, found, -⟩
        rw [found] at made
        exact made
      constructor
      · intro held
        by_cases same : m = n
        · exact .inr ⟨same, first (same ▸ held), k, held⟩
        · exact .inl ⟨same, held⟩
      · rintro (⟨-, held⟩ | ⟨rfl, rfl, before, held⟩)
        · exact held
        · exact first held ▸ held
    · exact .inl ⟨_, rfl, rfl, if_neg made⟩

end Operations

section Steps
variable [DecidableEq File] {s' : System File}

omit [DecidableEq File] in
theorem Consistent.shaped (ok : Consistent c s) {l : Lease} (found : s.slots k = .lease l) :
    l.fd.isSome ↔ l.acquired = true ∧ l.mode = .gui := by
  have fits := ok.fits k
  rw [found] at fits
  exact fits.2

omit [DecidableEq File] in
/-- A lease is given back and its variable has another use. -/
theorem Consistent.released (ok : Consistent c s) {l : Lease} (found : s.slots k = .lease l)
    (bare : slot.fd = none) (fits : slot.Fits c (release c k.1 l s.table).2 k.1) :
    Consistent c (s.put k slot (release c k.1 l s.table).2) := by
  have active : s.status k.1 = .frontend := ok.running (by simp [found])
  have shaped : l.fd.isSome → l.acquired := fun has => ((ok.shaped found).1 has).1
  have uses : (s.slots k).fd = l.fd := by rw [found]; rfl
  refine ok.clear active bare fits ?_ ?_
  · intro q m f b other
    exact (holds_release c shaped).1 (uses ▸ other)
  · intro q m f b same holds
    exact (holds_release c shaped).2 (uses.symm.trans same) holds

theorem Consistent.step (ok : Consistent c s) {event : Event File}
    (steps : step c s event = some s') : Consistent c s' := by
  cases event with
  | start p =>
    simp only [FrontendLease.step, Option.ite_none_right_eq_some, Option.some.injEq] at steps
    obtain ⟨absent, rfl⟩ := steps
    exact ok.setStatus (fun _ _ _ _ _ => Iff.rfl) fun m f l holds => absurd absent (ok.present holds)
  | construct p v =>
    simp only [FrontendLease.step, Option.ite_none_right_eq_some, Option.some.injEq] at steps
    obtain ⟨⟨running, vacant⟩, rfl⟩ := steps
    refine ok.clear running rfl (Slot.fits_bare rfl (by simp)) (fun _ _ _ _ _ => Iff.rfl) ?_
    intro q m f l uses
    rw [vacant] at uses
    cases uses
  | begin_ p v mode host =>
    simp only [FrontendLease.step, Option.ite_none_right_eq_some, Option.some.injEq] at steps
    obtain ⟨⟨running, vacant, system⟩, rfl⟩ := steps
    have free : (s.slots (p, v)).fd = none := by rw [vacant]; rfl
    rcases beginAcquire_cases mode host p s.table with
      ⟨lease, done, bare, idle, same⟩ | ⟨done, -, f, locked, -, unlocked, -, adds⟩
    · rw [done]
      refine ok.clear running bare (Slot.fits_bare bare idle) (fun _ _ _ _ _ => same _ _ _ _) ?_
      intro q m f l uses
      rw [free] at uses
      cases uses
    · rw [done]
      exact ok.gain running free (fun posix => unlocked (system.trans posix)) adds
  | conclude p v interrupted =>
    simp only [FrontendLease.step] at steps
    split at steps
    · rename_i n opening
      obtain rfl := Option.some.inj steps
      have uses : (s.slots (p, v)).fd = some n := by rw [opening]; rfl
      obtain ⟨f, l, holds⟩ := (ok.fits (p, v)).holds uses
      rcases concludeAcquire_cases (c := c) interrupted holds with
        ⟨lease, bare, refused, done⟩ | ⟨u, done, locks⟩
      · rw [done]
        have active : s.status p = .frontend := ok.running (k := (p, v)) (by simp [opening])
        refine ok.clear active bare (Slot.fits_bare bare (by simp [refused])) ?_ ?_
        · intro q m g b other
          have differs : m ≠ n := fun same => other (same ▸ uses)
          simp [Table.holds_close, differs]
        · intro q m g b same
          obtain rfl := Option.some.inj (uses.symm.trans same)
          simp only [Table.holds_close, forall_const, ne_eq, and_imp]
          exact fun before other => ⟨other, b, before⟩
      · rw [done]
        exact ok.settle opening locks
    · cases steps
  | move p v w =>
    simp only [FrontendLease.step] at steps
    split at steps
    · rename_i lease other target source
      split at steps
      · obtain rfl := Option.some.inj steps
        exact ok
      · rename_i differ
        obtain rfl := Option.some.inj steps
        -- first the old lease is given back, then the other one moves in
        have cleared := ok.released target rfl (Slot.fits_bare (l := {}) rfl (by simp))
        have keys : (p, w) ≠ (p, v) := by simp [Ne.symm differ]
        have moved := cleared.transfer differ ((slots_put_of_ne keys).trans source)
          (by rw [slots_put_self]; rfl) rfl
          (Slot.fits_bare (l := { other with acquired := false, error := [], fd := none }) rfl
            (by simp))
        simpa [System.put, moveAssign] using moved
    · cases steps
  | destroy p v =>
    simp only [FrontendLease.step] at steps
    split at steps
    · rename_i lease found
      obtain rfl := Option.some.inj steps
      exact ok.released found rfl trivial
    · cases steps
  | fork p child =>
    simp only [FrontendLease.step, Option.ite_none_right_eq_some, Option.some.injEq] at steps
    obtain ⟨⟨-, -, absent⟩, rfl⟩ := steps
    refine ok.setStatus (fun q m f l other => ?_) fun _ _ _ _ => rfl
    rw [Table.holds_duplicate, or_iff_left fun same => other same.1]
  | exec p =>
    simp only [FrontendLease.step, Option.ite_none_right_eq_some, Option.some.injEq] at steps
    obtain ⟨-, rfl⟩ := steps
    refine ok.setStatus (fun q m f l other => ?_) fun m f l holds => ?_
    · rw [Table.holds_closeAll, and_iff_left other]
    · exact absurd rfl (Table.holds_closeAll.1 holds).2
  | exit p =>
    simp only [FrontendLease.step, Option.ite_none_right_eq_some, Option.some.injEq] at steps
    obtain ⟨-, rfl⟩ := steps
    refine ok.setStatus (fun q m f l other => ?_) fun m f l holds => ?_
    · rw [Table.holds_closeAll, and_iff_left other]
    · exact absurd rfl (Table.holds_closeAll.1 holds).2

theorem Consistent.trail (events : List (Event File)) :
    ∀ s ∈ DrivenMachine.trail (FrontendLease.step c) {} events, Consistent c s :=
  DrivenMachine.forall_trail_of_keeps (fun _ _ _ ok steps => ok.step steps) .initial

/-- Every open description was open before, or the step opened its file. -/
theorem Consistent.opened (ok : Consistent c s) {event : Event File}
    (steps : FrontendLease.step c s event = some s') {q m : Nat} {f : File} {l : Bool}
    (holds : s'.table.Holds q m f l) :
    (∃ r k, s.table.Holds r m f k) ∨ event.opens f := by
  have kept : ∀ {v : Nat × Nat} {lease : Lease}, s.slots v = .lease lease →
      (release c v.1 lease s.table).2.Holds q m f l → ∃ r k, s.table.Holds r m f k := by
    intro v lease found holds
    have shaped : lease.fd.isSome → lease.acquired := fun has => ((ok.shaped found).1 has).1
    by_cases same : lease.fd = some m
    · obtain ⟨-, before, earlier⟩ := (holds_release c shaped).2 same holds
      exact ⟨q, before, earlier⟩
    · exact ⟨q, l, ((holds_release c shaped).1 same).1 holds⟩
  cases event with
  | start p =>
    simp only [FrontendLease.step, Option.ite_none_right_eq_some, Option.some.injEq] at steps
    obtain ⟨-, rfl⟩ := steps
    exact .inl ⟨q, l, holds⟩
  | construct p v =>
    simp only [FrontendLease.step, Option.ite_none_right_eq_some, Option.some.injEq] at steps
    obtain ⟨-, rfl⟩ := steps
    exact .inl ⟨q, l, holds⟩
  | begin_ p v mode host =>
    simp only [FrontendLease.step, Option.ite_none_right_eq_some, Option.some.injEq] at steps
    obtain ⟨-, rfl⟩ := steps
    rcases beginAcquire_cases mode host p s.table with
      ⟨-, -, -, -, same⟩ | ⟨-, -, g, locked, opens, -, -, adds⟩
    · exact .inl ⟨q, l, (same q m f l).1 holds⟩
    · rcases (adds q m f l).1 holds with before | ⟨-, -, rfl, -⟩
      · exact .inl ⟨q, l, before⟩
      · exact .inr opens
  | conclude p v interrupted =>
    simp only [FrontendLease.step] at steps
    split at steps
    · rename_i n opening
      obtain rfl := Option.some.inj steps
      have uses : (s.slots (p, v)).fd = some n := by rw [opening]; rfl
      obtain ⟨g, b, mine⟩ := (ok.fits (p, v)).holds uses
      rcases concludeAcquire_cases (c := c) interrupted mine with
        ⟨lease, -, -, done⟩ | ⟨u, done, locks⟩
      · rw [done] at holds
        exact .inl ⟨q, l, (Table.holds_close.1 holds).1⟩
      · rw [done] at holds
        rcases (locks q m f l).1 holds with ⟨-, before⟩ | ⟨-, -, before, earlier⟩
        · exact .inl ⟨q, l, before⟩
        · exact .inl ⟨q, before, earlier⟩
    · cases steps
  | move p v w =>
    simp only [FrontendLease.step] at steps
    split at steps
    · rename_i lease other target source
      split at steps
      · obtain rfl := Option.some.inj steps
        exact .inl ⟨q, l, holds⟩
      · obtain rfl := Option.some.inj steps
        exact .inl (kept target holds)
    · cases steps
  | destroy p v =>
    simp only [FrontendLease.step] at steps
    split at steps
    · rename_i lease found
      obtain rfl := Option.some.inj steps
      exact .inl (kept found holds)
    · cases steps
  | fork p child =>
    simp only [FrontendLease.step, Option.ite_none_right_eq_some, Option.some.injEq] at steps
    obtain ⟨-, rfl⟩ := steps
    rcases Table.holds_duplicate.1 holds with before | ⟨-, before⟩
    · exact .inl ⟨q, l, before⟩
    · exact .inl ⟨p, l, before⟩
  | exec p =>
    simp only [FrontendLease.step, Option.ite_none_right_eq_some, Option.some.injEq] at steps
    obtain ⟨-, rfl⟩ := steps
    exact .inl ⟨q, l, (Table.holds_closeAll.1 holds).1⟩
  | exit p =>
    simp only [FrontendLease.step, Option.ite_none_right_eq_some, Option.some.injEq] at steps
    obtain ⟨-, rfl⟩ := steps
    exact .inl ⟨q, l, (Table.holds_closeAll.1 holds).1⟩

end Steps

section Runs
variable [DecidableEq File]

/-- The variable has a lease that a desktop frontend acquired with this lock file. -/
def System.Owns (s : System File) (k : Nat × Nat) (f : File) : Prop :=
  ∃ l n, s.slots k = .lease l ∧ l.mode = .gui ∧ l.acquired = true ∧ l.fd = some n ∧
    s.table.Holds k.1 n f true

omit [DecidableEq File] in
theorem Consistent.owns (ok : Consistent c s) {l : Lease} (found : s.slots k = .lease l)
    (gui : l.mode = .gui) (acquired : l.acquired = true) : ∃ f, s.Owns k f := by
  obtain ⟨n, uses⟩ := Option.isSome_iff_exists.1 ((ok.shaped found).2 ⟨acquired, gui⟩)
  have fits := ok.fits k
  rw [found] at fits
  obtain ⟨f, holds⟩ := fits.1 n uses
  exact ⟨f, l, n, found, gui, acquired, uses, holds⟩

omit [DecidableEq File] in
theorem Consistent.owner_unique (ok : Consistent c s) {j : Nat × Nat} {f : File} (first : s.Owns j f)
    (second : s.Owns k f) : j = k := by
  obtain ⟨l, m, foundJ, -, -, usesJ, holdsJ⟩ := first
  obtain ⟨l', n, foundK, -, -, usesK, holdsK⟩ := second
  obtain rfl := holdsJ.exclusive holdsK
  exact ok.sole (by rw [foundJ]; exact usesJ) (by rw [foundK]; exact usesK)

/-- A lock file belongs to one lease at a time, whatever the processes do and in whatever order.
Where every call comes to the same file, there is never a second desktop frontend. -/
theorem gui_leases_exclude (c : Convention) (events : List (Event File)) :
    ∀ s ∈ DrivenMachine.trail (step c) {} events,
      (∀ j k f, s.Owns j f → s.Owns k f → j = k) ∧
      ((∃ f, ∀ event ∈ events, ∀ g, event.opens g → g = f) →
        ∀ j k l m, s.slots j = .lease l → l.mode = .gui → l.acquired = true →
          s.slots k = .lease m → m.mode = .gui → m.acquired = true → j = k) := by
  intro s reached
  have ok := Consistent.trail events s reached
  refine ⟨fun j k f => ok.owner_unique, ?_⟩
  rintro ⟨f, oneFile⟩ j k l m foundJ guiJ acquiredJ foundK guiK acquiredK
  have permitted : DrivenMachine.Throughout (step c)
      (fun (_ : System File) event => ∀ g, event.opens g → g = f) {} events :=
    DrivenMachine.throughout_of_forall_mem fun _ => oneFile
  have keeps : ∀ s event (s' : System File),
      (Consistent c s ∧ ∀ q m g b, s.table.Holds q m g b → g = f) →
      (∀ g, event.opens g → g = f) → step c s event = some s' →
      Consistent c s' ∧ ∀ q m g b, s'.table.Holds q m g b → g = f := by
    rintro s event s' ⟨ok, files⟩ opens steps
    refine ⟨ok.step steps, fun q m g b holds => ?_⟩
    rcases ok.opened steps holds with ⟨r, b, before⟩ | new
    · exact files r m g b before
    · exact opens g new
  have files := (DrivenMachine.forall_trail keeps
    ⟨.initial, fun _ _ _ _ holds => absurd holds Table.not_holds_empty⟩ permitted s reached).2
  obtain ⟨g, ownsJ⟩ := ok.owns foundJ guiJ acquiredJ
  obtain ⟨h, ownsK⟩ := ok.owns foundK guiK acquiredK
  have sameFile : g = h := by
    obtain ⟨_, _, _, _, _, _, holdsJ⟩ := ownsJ
    obtain ⟨_, _, _, _, _, _, holdsK⟩ := ownsK
    exact (files _ _ _ _ holdsJ).trans (files _ _ _ _ holdsK).symm
  exact ok.owner_unique ownsJ (sameFile ▸ ownsK)

/-- The first frontend has the lock file, which the second one has just opened. -/
def twoFrontends : List (Event Nat) :=
  let host : Host Nat := .posix {
    uid := 1000
    runtimeDirectory := some (lit "/run/user/1000")
    lstat := fun _ => some { directory := true, regular := false, uid := 1000, mode := 0o700 }
    access := fun _ => true
    mkdir := fun _ => false
    lstatMade := fun _ => none
    openLock := fun _ => some 7
    fstat := fun _ => some { directory := false, regular := true, uid := 1000, mode := 0o600 } }
  [.start 1, .begin_ 1 0 .gui host, .conclude 1 0 false, .start 2, .begin_ 2 0 .gui host]

/-- Only the first of the two has an acquired lease, also when the second one's attempt is over. -/
theorem second_frontend_has_no_lease : ¬ ∃ l,
    (DrivenMachine.outcome (step .posix) {} (twoFrontends ++ [.conclude 2 0 false])).slots (2, 0) =
      .lease l ∧ l.mode = .gui ∧ l.acquired = true := by
  rintro ⟨l, found, gui, acquired⟩
  have reached := @DrivenMachine.outcome_mem_trail _ _ (step .posix) {}
    (twoFrontends ++ [.conclude 2 0 false])
  have oneFile : ∀ event ∈ twoFrontends ++ [.conclude 2 0 false], ∀ g, event.opens g → g = 7 := by
    simp only [twoFrontends, List.cons_append, List.nil_append, List.forall_mem_cons, Event.opens,
      Host.opens]
    simp
  have same := (gui_leases_exclude .posix _ _ reached).2 ⟨7, oneFile⟩ (1, 0) (2, 0)
    { acquired := true, fd := some 0 } l (by decide) rfl rfl found gui acquired
  exact absurd same (by decide)

/-- A lock file is refused exactly while an acquired lease has it, or while a process is about to
run another program that was forked by one that had it. -/
theorem refused_iff (events : List (Event File)) {s' : System File} {v : Nat} {f : File} {l : Bool}
    (reached : s ∈ DrivenMachine.trail (step .posix) {} events)
    (opening : s.slots (p, v) = .opening n) (file : s.table.Holds p n f l)
    (steps : step .posix s (.conclude p v false) = some s') :
    ¬ s'.Owns (p, v) f ↔
      (∃ k, s.Owns k f) ∨ ∃ q m, s.status q = .forked ∧ s.table.Holds q m f true := by
  have ok := Consistent.trail events s reached
  have unlocked : l = false := by
    have fits := ok.fits (p, v)
    rw [opening] at fits
    obtain ⟨_, _, holds, free⟩ := fits
    rw [(file.unique holds).2]
    exact free rfl
  subst unlocked
  -- the lock is refused when another description has it
  have refused : ¬ s'.Owns (p, v) f ↔ s.table.tryLock n = none := by
    simp only [step, opening, Option.some.injEq] at steps
    subst steps
    cases locked : s.table.tryLock n with
    | none =>
      refine iff_of_true ?_ rfl
      rintro ⟨l, m, found, -, acquired, -⟩
      rw [slots_put_self] at found
      cases found
      simp [concludeAcquire, locked] at acquired
    | some u =>
      refine iff_of_false (not_not.2 ?_) (Option.some_ne_none u)
      have after : u.Holds p n f true :=
        ((Table.holds_tryLock locked).2 p n f true).2 (.inr ⟨rfl, rfl, false, file⟩)
      refine ⟨{ acquired := true, fd := some n }, n, ?_, rfl, rfl, rfl, ?_⟩
      · rw [slots_put_self]
        simp [concludeAcquire, locked]
      · simpa [System.put, concludeAcquire, locked] using after
  have differs : ∀ {q m}, s.table.Holds q m f true → m ≠ n := by
    rintro q m holds rfl
    cases (holds.unique file).2
  rw [refused, Table.tryLock_eq_none_iff file]
  constructor
  · rintro ⟨q, m, other, holds⟩
    cases status : s.status q with
    | absent => exact absurd status (ok.present holds)
    | forked => exact .inr ⟨q, m, status, holds⟩
    | frontend =>
      obtain ⟨w, uses⟩ := ok.accounted status holds
      have fits := ok.fits (q, w)
      cases found : s.slots (q, w) with
      | vacant =>
        rw [found] at uses
        cases uses
      | opening m =>
        rw [found] at uses fits
        cases uses
        obtain ⟨_, _, again, free⟩ := fits
        cases (holds.unique again).2.trans (free rfl)
      | lease l =>
        rw [found] at uses
        obtain ⟨acquired, gui⟩ := (ok.shaped found).1 (Option.isSome_iff_exists.2 ⟨m, uses⟩)
        exact .inl ⟨(q, w), l, m, found, gui, acquired, uses, holds⟩
  · rintro (⟨k, l, m, -, -, -, -, holds⟩ | ⟨q, m, -, holds⟩)
    · exact ⟨k.1, m, differs holds, holds⟩
    · exact ⟨q, m, differs holds, holds⟩

theorem second_frontend_refused :
    ¬ (DrivenMachine.outcome (step .posix) {} (twoFrontends ++ [.conclude 2 0 false])).Owns (2, 0) 7 := by
  have reached := @DrivenMachine.outcome_mem_trail _ _ (step .posix) {} twoFrontends
  have opening : (DrivenMachine.outcome (step .posix) {} twoFrontends).slots (2, 0) = .opening 1 := by
    decide
  have file : (DrivenMachine.outcome (step .posix) {} twoFrontends).table.Holds 2 1 7 false :=
    ⟨[2], by decide, by decide⟩
  refine (refused_iff twoFrontends reached opening file rfl).2 (.inl ?_)
  exact ⟨(1, 0), { acquired := true, fd := some 0 }, 0, by decide, rfl, rfl, rfl, [1], by decide,
    by decide⟩

/-- While no call is under way and no process is about to run another program, exactly the
acquired leases of desktop frontends have anything open, each a description of its own. -/
theorem nothing_leaks (c : Convention) (events : List (Event File)) :
    ∀ s ∈ DrivenMachine.trail (step c) {} events,
      (∀ k n, s.slots k ≠ .opening n) → (∀ q, s.status q ≠ .forked) →
      ∀ n, (s.table.find n).isSome ↔
        ∃! k, ∃ l, s.slots k = .lease l ∧ l.mode = .gui ∧ l.acquired = true ∧ l.fd = some n := by
  intro s reached quiet settled n
  have ok := Consistent.trail events s reached
  constructor
  · intro isOpen
    obtain ⟨d, found⟩ := Option.isSome_iff_exists.1 isOpen
    obtain ⟨q, holds⟩ := Table.exists_holds found
    have running : s.status q = .frontend := by
      cases status : s.status q with
      | absent => exact absurd status (ok.present holds)
      | forked => exact absurd status (settled q)
      | frontend => rfl
    obtain ⟨v, uses⟩ := ok.accounted running holds
    refine ⟨(q, v), ?_, ?_⟩
    · cases slot : s.slots (q, v) with
      | vacant =>
        rw [slot] at uses
        cases uses
      | opening m => exact absurd slot (quiet _ m)
      | lease l =>
        rw [slot] at uses
        obtain ⟨acquired, gui⟩ := (ok.shaped slot).1 (Option.isSome_iff_exists.2 ⟨n, uses⟩)
        exact ⟨l, slot, gui, acquired, uses⟩
    · rintro k ⟨l, slot, -, -, again⟩
      exact ok.sole (by rw [slot]; exact again) uses
  · rintro ⟨k, ⟨l, slot, -, -, uses⟩, -⟩
    obtain ⟨f, b, holders, found, -⟩ := (ok.fits k).holds (by rw [slot]; exact uses)
    rw [found]
    rfl

/-- The first frontend's lease, and nothing else, has its lock file open. -/
theorem one_frontend_open : ∃! k, ∃ l,
    (DrivenMachine.outcome (step .posix) {} (twoFrontends.take 3)).slots k = .lease l ∧
      l.mode = .gui ∧ l.acquired = true ∧ l.fd = some 0 := by
  have reached := @DrivenMachine.outcome_mem_trail _ _ (step .posix) {} (twoFrontends.take 3)
  refine (nothing_leaks .posix _ _ reached ?_ ?_ 0).1 (by decide)
  · intro k n
    by_cases first : k = (1, 0)
    · subst first
      exact Slot.noConfusion
    · have vacant : (DrivenMachine.outcome (step .posix) {} (twoFrontends.take 3)).slots k =
          .vacant :=
        ((slots_put_of_ne first).trans (slots_put_of_ne first)).trans (ite_self _)
      rw [vacant]
      exact Slot.noConfusion
  · intro q
    by_cases first : q = 1
    · subst first
      exact Status.noConfusion
    · have absent : (DrivenMachine.outcome (step .posix) {} (twoFrontends.take 3)).status q =
          .absent := status_setStatus_of_ne (t := Table.empty) first
      rw [absent]
      exact Status.noConfusion

end Runs

end Such.FrontendLease
