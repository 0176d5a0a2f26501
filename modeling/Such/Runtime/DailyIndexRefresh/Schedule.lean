import Such.Runtime.DailyIndexRefresh

/-! The schedule over whole runs: what a session wrote the next one reads back, no refresh is due
too soon after what was recorded last, and the decision never leaves 64 bits. -/
namespace Such.DailyIndexRefresh
open ByteText

def IsInt64 (n : Int) : Prop := -2 ^ 63 ≤ n ∧ n < 2 ^ 63

instance (n : Int) : Decidable (IsInt64 n) := inferInstanceAs (Decidable (_ ∧ _))

section Reading

theorem isSpace_of_isDigit {b : UInt8} (digit : isDigit b = true) : isSpace b = false := by
  rw [isDigit_iff] at digit
  rw [← Bool.not_eq_true, isSpace_iff]
  omega

theorem extractWord_append {word : Bytes} (filled : word ≠ []) (plain : ∀ b ∈ word, isSpace b = false)
    {sep : UInt8} (space : isSpace sep = true) (rest : Bytes) :
    extractWord (word ++ sep :: rest) = some (word, sep :: rest) := by
  obtain ⟨b, word, rfl⟩ := List.exists_cons_of_ne_nil filled
  have first : isSpace b = false := plain b List.mem_cons_self
  have front : ((b :: word) ++ sep :: rest).dropWhile isSpace = (b :: word) ++ sep :: rest :=
    List.dropWhile_cons_of_neg (by simp [first])
  have whole : ((b :: word) ++ sep :: rest).takeWhile (!isSpace ·) = b :: word := by
    rw [takeWhile_append_stop (by simp [space]), List.takeWhile_eq_self_iff]
    intro c member
    simp [plain c member]
  simp only [extractWord]
  rw [front, whole, if_neg (by simp), List.drop_left]

/-- A time in decimal behind a blank is read back, up to what ends it. -/
theorem extractInt64_decimalInt {n : Int} (low : 0 ≤ n) (high : n < 2 ^ 63) {sep : UInt8}
    (stop : isDigit sep = false) (rest : Bytes) :
    extractInt64 (32 :: decimalInt n ++ sep :: rest) = some (n, sep :: rest) := by
  obtain ⟨m, rfl⟩ := Int.eq_ofNat_of_zero_le low
  have digits : ∀ b ∈ decimal m, isDigit b = true := fun b => isDigit_of_mem_decimal
  obtain ⟨b, tail, shape⟩ := List.exists_cons_of_ne_nil (decimal_ne_nil m)
  have first : isDigit b = true := digits b (by simp [shape])
  have front : (32 :: decimalInt m ++ sep :: rest).dropWhile isSpace = decimal m ++ sep :: rest := by
    change (32 :: (decimal m ++ sep :: rest)).dropWhile isSpace = _
    rw [List.dropWhile_cons_of_pos (by decide), shape, List.cons_append,
      List.dropWhile_cons_of_neg (by simp [isSpace_of_isDigit first])]
  have unsigned : ∀ sign : UInt8, isDigit sign = false →
      (decimal m ++ sep :: rest).head? ≠ some sign := by
    intro sign other same
    rw [shape] at same
    obtain rfl := Option.some.inj same
    rw [first] at other
    cases other
  have whole : (decimal m ++ sep :: rest).takeWhile isDigit = decimal m := by
    rw [takeWhile_append_stop stop, List.takeWhile_eq_self_iff]
    exact digits
  have unmarked : ¬ ((decimal m ++ sep :: rest).head? = some 43 ∨
      (decimal m ++ sep :: rest).head? = some 45) :=
    not_or.mpr ⟨unsigned 43 (by decide), unsigned 45 (by decide)⟩
  have filled : (decimal m).isEmpty = false := by simp [decimal_ne_nil]
  simp only [extractInt64, front, if_neg unmarked, if_neg (unsigned 45 (by decide)), whole,
    digitsValue_decimal, List.drop_left, filled]
  rw [if_neg]
  simp only [Bool.false_eq_true, false_or, not_or]
  omega

/-- Times that a state file can hold. -/
structure Fits (r : DailyIndexRefresh) : Prop where
  success : 0 ≤ r.lastSuccess ∧ r.lastSuccess < 2 ^ 63
  attempt : 0 ≤ r.lastAttempt ∧ r.lastAttempt < 2 ^ 63

theorem load_stateText {r : DailyIndexRefresh} (fits : Fits r) :
    load (.content (stateText r)) = .ok r := by
  have plain : ∀ b ∈ magic, isSpace b = false := by decide +kernel
  have times : extractTimes (stateText r) = some (magic, r.lastSuccess, r.lastAttempt, [10]) := by
    have word := @extractWord_append magic (by decide) plain 32 (by decide)
      (decimalInt r.lastSuccess ++ 32 :: decimalInt r.lastAttempt ++ [10])
    have success := @extractInt64_decimalInt r.lastSuccess fits.success.1 fits.success.2 32 (by decide)
      (decimalInt r.lastAttempt ++ [10])
    have attempt := @extractInt64_decimalInt r.lastAttempt fits.attempt.1 fits.attempt.2 10 (by decide) []
    simp only [List.append_assoc, List.cons_append] at word success attempt
    simp only [extractTimes, stateText, List.append_assoc, List.cons_append, word, success, attempt,
      Option.bind_eq_bind, Option.bind_some, Option.pure_def]
  have positive : ¬ (magic ≠ magic ∨ r.lastSuccess < 0 ∨ r.lastAttempt < 0) := by
    simp only [ne_eq, not_true_eq_false, false_or, not_or, not_lt]
    exact ⟨fits.success.1, fits.attempt.1⟩
  simp only [load, times]
  rw [if_neg positive, if_neg (by decide)]

theorem extractInt64_fits {text rest : Bytes} {n : Int} (found : extractInt64 text = some (n, rest)) :
    IsInt64 n := by
  simp only [extractInt64, Option.ite_none_left_eq_some, not_or, not_lt, not_le] at found
  obtain ⟨inside, same⟩ := found
  rw [← (Prod.mk.inj (Option.some.inj same)).1]
  exact ⟨inside.2.1, inside.2.2⟩

/-- What a load accepts fits into 64 bits. -/
theorem load_fits {file : StateFile} {r : DailyIndexRefresh} (loaded : load file = .ok r) : Fits r := by
  cases file with
  | absent =>
    cases loaded
    exact ⟨by decide, by decide⟩
  | content text =>
    simp only [load] at loaded
    split at loaded
    · cases loaded
    · rename_i word success attempt rest times
      simp only [extractTimes, Option.bind_eq_bind, Option.bind_eq_some_iff, Prod.exists] at times
      obtain ⟨_, _, -, first, _, found, second, _, found', same⟩ := times
      simp only [Option.pure_def, Option.some.injEq, Prod.mk.injEq] at same
      obtain ⟨-, rfl, rfl, -⟩ := same
      have range := extractInt64_fits found
      have range' := extractInt64_fits found'
      split at loaded
      · cases loaded
      · rename_i positive
        simp only [not_or, not_lt] at positive
        split at loaded
        · cases loaded
        · cases loaded
          exact ⟨⟨positive.2.1, range.2⟩, ⟨positive.2.2, range'.2⟩⟩
  | _ => cases loaded

end Reading

section Deciding

/-- A subtraction of 64-bit integers, `none` where it overflows. -/
def subInt64 (a b : Int) : Option Int :=
  if -2 ^ 63 ≤ a - b ∧ a - b < 2 ^ 63 then some (a - b) else none

def elapsed (now past gap : Int) : Option Bool := (subInt64 now past).map (decide <| gap ≤ ·)

/-- The decision with each subtraction checked where it is made. -/
def dueInt64 (now : Int) (hasRoots workerActive : Bool) (r : DailyIndexRefresh) : Option Bool :=
  if now ≤ 0 ∨ !hasRoots ∨ workerActive then some false
  else if now < r.lastSuccess then some false
  else (if r.lastSuccess = 0 then some true else elapsed now r.lastSuccess kRefreshSeconds).bind
    fun refreshable =>
      if !refreshable then some false
      else if now < r.lastAttempt then some false
      else if r.lastAttempt = 0 then some true
      else elapsed now r.lastAttempt kRetrySeconds

theorem elapsed_of_le {now past : Int} (clock : IsInt64 now) (low : 0 ≤ past) (before : past ≤ now)
    (gap : Int) : elapsed now past gap = some (decide (gap ≤ now - past)) := by
  have high := clock.2
  rw [elapsed, subInt64, if_pos ⟨by omega, by omega⟩]
  rfl

theorem dueInt64_eq {r : DailyIndexRefresh} (fits : Fits r) {now : Int} (clock : IsInt64 now)
    (hasRoots workerActive : Bool) :
    dueInt64 now hasRoots workerActive r = some (due now hasRoots workerActive r) := by
  simp only [dueInt64, due]
  split
  · rfl
  · split
    · rfl
    · rename_i past
      have refreshable : (if r.lastSuccess = 0 then some true
          else elapsed now r.lastSuccess kRefreshSeconds) =
            some (!decide (r.lastSuccess ≠ 0 ∧ now - r.lastSuccess < kRefreshSeconds)) := by
        rw [elapsed_of_le clock fits.success.1 (not_lt.mp past)]
        split
        · rename_i none
          simp [none]
        · rename_i set
          simp only [set, ne_eq, not_false_eq_true, true_and, ← decide_not, not_lt]
      rw [refreshable, Option.bind_some, Bool.not_not]
      simp only [decide_eq_true_eq]
      split
      · rfl
      · split
        · rfl
        · rename_i past'
          rw [elapsed_of_le clock fits.attempt.1 (not_lt.mp past')]
          split
          · rename_i none
            simp [none]
          · rename_i set
            simp [set]

/-- A refresh that is due is late enough for both recorded times. -/
theorem due_gaps {now : Int} {hasRoots workerActive : Bool} {r : DailyIndexRefresh}
    (isDue : due now hasRoots workerActive r = true) :
    (r.lastSuccess ≠ 0 → r.lastSuccess + kRefreshSeconds ≤ now) ∧
      (r.lastAttempt ≠ 0 → r.lastAttempt + kRetrySeconds ≤ now) := by
  simp only [due, Bool.if_false_left, Bool.and_eq_true, Bool.not_eq_true', decide_eq_false_iff_not,
    decide_eq_true_eq, not_and, not_lt] at isDue
  obtain ⟨-, -, refresh, -, retry⟩ := isDue
  constructor
  · intro set
    have gap := refresh set
    omega
  · intro set
    have gap := retry.resolve_left set
    omega

end Deciding

section Sessions

inductive Recorded where
  | attempt
  | success
  | failure
deriving DecidableEq, Repr

structure Entry where
  kind : Recorded
  time : Int
deriving DecidableEq, Repr

/-- The state file, what the running session holds of it, and all that was recorded, the newest
first. -/
structure Session where
  file : StateFile
  memory : DailyIndexRefresh
  log : List Entry
deriving DecidableEq, Repr

/-- A write that succeeds. -/
def replaceFile (text : Bytes) (_ : StateFile) : Except Bytes Unit × StateFile :=
  (.ok (), .content text)

/-- What is kept of a call that records: a refused one leaves no entry. -/
def Session.keep (s : Session) (kind : Recorded) (now : Int)
    (outcome : Except Bytes Unit × DailyIndexRefresh × StateFile) : Session where
  file := outcome.2.2
  memory := outcome.2.1
  log := if outcome.1.isOk then ⟨kind, now⟩ :: s.log else s.log

inductive Call where
  | check (now : Int) (hasRoots workerActive : Bool)
  | attempt (now : Int)
  | success (now : Int)
  | failure (now : Int)

def Call.now : Call → Int
  | .check now _ _ => now
  | .attempt now => now
  | .success now => now
  | .failure now => now

def Call.run (s : Session) : Call → Session
  | .check _ _ _ => s
  | .attempt now => s.keep .attempt now (recordAttempt replaceFile now s.memory s.file)
  | .success now => s.keep .success now (recordSuccess replaceFile now s.memory s.file)
  | .failure now => s.keep .failure now (recordFailure replaceFile now s.memory s.file)

/-- What a state file tells of earlier runs. -/
def earlier (r : DailyIndexRefresh) : List Entry :=
  (if r.lastAttempt ≠ 0 then [⟨.attempt, r.lastAttempt⟩] else []) ++
    if r.lastSuccess ≠ 0 then [⟨.success, r.lastSuccess⟩] else []

/-- Any number of sessions, one after the other, with any calls at any clock readings. -/
inductive Runs (file : StateFile) : Session → Prop where
  | load {r : DailyIndexRefresh} (loaded : DailyIndexRefresh.load file = .ok r) :
      Runs file ⟨file, r, earlier r⟩
  | reload {s : Session} {r : DailyIndexRefresh} (before : Runs file s)
      (loaded : DailyIndexRefresh.load s.file = .ok r) : Runs file { s with memory := r }
  | call {s : Session} (before : Runs file s) (c : Call) (clock : IsInt64 c.now) :
      Runs file (c.run s)

def latest (s : Session) : Option Entry := s.log.head?

def latestSuccess (s : Session) : Option Entry := s.log.find? (·.kind = .success)

/-- The file holds what the session does, and the times are those of the newest entries. -/
structure Faithful (s : Session) : Prop where
  fits : Fits s.memory
  saved : load s.file = .ok s.memory
  newest : ∀ e, latest s = some e →
    e.time ≠ 0 ∧ (e.time = s.memory.lastAttempt ∨ e.time = s.memory.lastSuccess)
  success : ∀ e, latestSuccess s = some e → e.time ≠ 0 ∧ e.time = s.memory.lastSuccess

theorem earlier_faithful {file : StateFile} {r : DailyIndexRefresh} (loaded : load file = .ok r) :
    Faithful ⟨file, r, earlier r⟩ := by
  refine ⟨load_fits loaded, loaded, ?_, ?_⟩
  · intro e newest
    simp only [latest, earlier] at newest
    split at newest
    · rename_i set
      cases newest
      exact ⟨set, .inl rfl⟩
    · split at newest
      · rename_i set
        cases newest
        exact ⟨set, .inr rfl⟩
      · cases newest
  · intro e newest
    simp only [latestSuccess, earlier] at newest
    split at newest <;> split at newest <;> simp at newest
    all_goals
      rename_i set
      subst newest
      exact ⟨set, rfl⟩

/-- A call either is refused or does not record, or it writes what it recorded. -/
theorem Call.run_cases (s : Session) (c : Call) :
    c.run s = s ∨ 0 < c.now ∧ ∃ kind next,
      c.run s = ⟨.content (stateText next), next, ⟨kind, c.now⟩ :: s.log⟩ ∧
      next.lastAttempt = c.now ∧
      next.lastSuccess = if kind = .success then c.now else s.memory.lastSuccess := by
  have recorded : ∀ (kind : Recorded) (now : Int) (next : DailyIndexRefresh),
      s.keep kind now (record replaceFile now next s.memory s.file) = s ∨
        0 < now ∧ s.keep kind now (record replaceFile now next s.memory s.file) =
          ⟨.content (stateText next), next, ⟨kind, now⟩ :: s.log⟩ := by
    intro kind now next
    simp only [record]
    split
    · exact .inl rfl
    · exact .inr ⟨by omega, rfl⟩
  cases c with
  | check now hasRoots workerActive => exact .inl rfl
  | attempt now =>
    exact (recorded .attempt now _).imp id fun ⟨positive, same⟩ => ⟨positive, _, _, same, rfl, rfl⟩
  | success now =>
    exact (recorded .success now _).imp id fun ⟨positive, same⟩ => ⟨positive, _, _, same, rfl, rfl⟩
  | failure now =>
    exact (recorded .failure now _).imp id fun ⟨positive, same⟩ => ⟨positive, _, _, same, rfl, rfl⟩

theorem Call.run_faithful {s : Session} (faithful : Faithful s) (c : Call) (clock : IsInt64 c.now) :
    Faithful (c.run s) := by
  rcases c.run_cases s with same | ⟨positive, kind, next, same, attempt, success⟩
  · rw [same]
    exact faithful
  · have fits : Fits next := by
      have range := clock.2
      have before := faithful.fits.success
      refine ⟨?_, by omega⟩
      rw [success]
      split <;> omega
    rw [same]
    refine ⟨fits, load_stateText fits, ?_, ?_⟩
    · rintro e ⟨⟩
      exact ⟨by dsimp only; omega, .inl attempt.symm⟩
    · intro e newest
      simp only [latestSuccess, List.find?_cons] at newest
      split at newest
      · rename_i isSuccess
        obtain rfl := Option.some.inj newest
        rw [if_pos (of_decide_eq_true isSuccess)] at success
        exact ⟨by dsimp only; omega, success.symm⟩
      · rename_i other
        rw [if_neg (of_decide_eq_false other)] at success
        rw [success]
        exact faithful.success e newest

theorem Runs.faithful {file : StateFile} {s : Session} (run : Runs file s) : Faithful s := by
  induction run with
  | load loaded => exact earlier_faithful loaded
  | reload before loaded ih =>
    cases ih.saved.symm.trans loaded
    exact ih
  | call before c clock ih => exact c.run_faithful ih clock

/-- The schedule in one state of a run: what is due is an hour after the latest entry and a day
after the latest success; the next session answers as this one does; no subtraction overflows. -/
structure KeepsSchedule (s : Session) : Prop where
  retry : ∀ now hasRoots workerActive, due now hasRoots workerActive s.memory = true →
    ∀ e, latest s = some e → e.time + kRetrySeconds ≤ now
  refresh : ∀ now hasRoots workerActive, due now hasRoots workerActive s.memory = true →
    ∀ e, latestSuccess s = some e → e.time + kRefreshSeconds ≤ now
  durable : ∃ r, load s.file = .ok r ∧ ∀ now hasRoots workerActive,
    due now hasRoots workerActive r = due now hasRoots workerActive s.memory
  noOverflow : ∀ now, IsInt64 now → ∀ hasRoots workerActive,
    dueInt64 now hasRoots workerActive s.memory = some (due now hasRoots workerActive s.memory)

/-- The schedule holds in every state of every run, whatever the clock does. -/
theorem Runs.keepsSchedule {file : StateFile} {s : Session} (run : Runs file s) :
    KeepsSchedule s := by
  have faithful := run.faithful
  constructor
  · intro now hasRoots workerActive isDue e newest
    obtain ⟨refresh, retry⟩ := due_gaps isDue
    have day : kRetrySeconds ≤ kRefreshSeconds := by decide
    obtain ⟨set, attempt | success⟩ := faithful.newest e newest
    · have gap := retry (attempt ▸ set)
      omega
    · have gap := refresh (success ▸ set)
      omega
  · intro now hasRoots workerActive isDue e newest
    obtain ⟨set, success⟩ := faithful.success e newest
    rw [success]
    exact (due_gaps isDue).1 (success ▸ set)
  · exact ⟨s.memory, faithful.saved, fun _ _ _ => rfl⟩
  · intro now clock hasRoots workerActive
    exact dueInt64_eq faithful.fits clock hasRoots workerActive

/-- A first use, an attempt, a success, a second session, and a failure on a clock gone back. -/
theorem two_sessions_keepSchedule : KeepsSchedule
    ⟨.content (stateText ⟨1800003600, 5⟩), ⟨1800003600, 5⟩,
      [⟨.failure, 5⟩, ⟨.success, 1800003600⟩, ⟨.attempt, 1800000000⟩]⟩ := by
  have first : Runs .absent ⟨.absent, {}, []⟩ := .load rfl
  have attempted := first.call (.attempt 1800000000) (by decide)
  have succeeded := attempted.call (.success 1800003600) (by decide)
  have second := succeeded.reload (load_stateText ⟨by decide, by decide⟩)
  exact Runs.keepsSchedule (second.call (.failure 5) (by decide))

end Sessions
end Such.DailyIndexRefresh
