import Such.Runtime.DailyIndexRefresh.Schedule

/-! One state file shared by a frontend and any number of command-line scans. A write replaces
the whole file, and it repeats what its process read of the last success. -/
namespace Such.DailyIndexRefresh
open ByteText

section Processes

inductive Process where
  | gui
  | scan (id : Nat)
deriving DecidableEq, Repr

inductive Event where
  | guiLoaded
  | started (now : Int)
  | recorded (process : Process) (kind : Recorded) (now : Int) (r : DailyIndexRefresh) (saved : Bool)
deriving DecidableEq, Repr

/-- Between a decision to index and its end. Only the daily refresh records a failed launch. -/
inductive Phase where
  | idle
  | launching (daily : Bool)
  | working
deriving DecidableEq, Repr

/-- What the processes share and what each holds; the events are the newest first. -/
structure Shared where
  clock : Int
  file : StateFile
  gui : Option DailyIndexRefresh := none
  phase : Phase := .idle
  scans : Nat → Option DailyIndexRefresh := fun _ => none
  events : List Event := []

/-- A write is all or nothing. -/
def persist (saved : Bool) (text : Bytes) (file : StateFile) : Except Bytes Unit × StateFile :=
  if saved then (.ok (), .content text)
  else (.error (lit "Cannot write daily refresh state"), file)

def recordKind (saved : Bool) (now : Int) (r : DailyIndexRefresh) (file : StateFile) :
    Recorded → Except Bytes Unit × DailyIndexRefresh × StateFile
  | .attempt => recordAttempt (persist saved) now r file
  | .success => recordSuccess (persist saved) now r file
  | .failure => recordFailure (persist saved) now r file

/-- A refused record leaves no event. -/
def Shared.log (s : Shared) (process : Process) (kind : Recorded) (r : DailyIndexRefresh) (saved : Bool) :
    List Event :=
  if s.clock ≤ 0 then s.events else .recorded process kind s.clock r saved :: s.events

/-- The frontend records only when its load succeeded. -/
def Shared.guiRecord (s : Shared) (kind : Recorded) (saved : Bool) : Shared :=
  match s.gui with
  | none => s
  | some r =>
    let (_, r, file) := recordKind saved s.clock r s.file kind
    { s with gui := some r, file := file, events := s.log .gui kind r saved }

def Shared.scanRecord (s : Shared) (id : Nat) (saved : Bool) : Shared :=
  match s.scans id with
  | none => s
  | some r =>
    let (_, r, file) := recordKind saved s.clock r s.file .success
    { s with
      file := file
      scans := Function.update s.scans id none
      events := s.log (.scan id) .success r saved }

inductive Action where
  | tick (seconds : Nat)
  | guiStart
  | guiCheck (rooted : Bool)
  | guiCommand
  | guiLaunch (launched saved : Bool)
  /-- No outcome is recorded when the runtime cannot be reloaded. -/
  | guiFinish (outcome : Option Bool) (saved : Bool)
  | scanLoad (id : Nat)
  | scanRecord (id : Nat) (saved : Bool)
deriving DecidableEq, Repr

/-- A step that its process is not ready for does nothing. -/
def Action.run (s : Shared) : Action → Shared
  | .tick seconds => if s.clock + seconds < 2 ^ 63 then { s with clock := s.clock + seconds } else s
  | .guiStart =>
    { s with gui := (load s.file).toOption, phase := .idle, events := .guiLoaded :: s.events }
  | .guiCheck rooted =>
    if s.phase = .idle ∧ rooted ∧ s.gui.any (due s.clock true false) then
      { s with phase := .launching true, events := .started s.clock :: s.events }
    else s
  | .guiCommand => if s.phase = .idle then { s with phase := .launching false } else s
  | .guiLaunch launched saved =>
    match s.phase with
    | .launching daily =>
      if launched then { s.guiRecord .attempt saved with phase := .working }
      else if daily then { s.guiRecord .failure saved with phase := .idle }
      else { s with phase := .idle }
    | _ => s
  | .guiFinish outcome saved =>
    if s.phase = .working then
      match outcome with
      | none => { s with phase := .idle }
      | some true => { s.guiRecord .success saved with phase := .idle }
      | some false => { s.guiRecord .failure saved with phase := .idle }
    else s
  | .scanLoad id => { s with scans := Function.update s.scans id (load s.file).toOption }
  | .scanRecord id saved => s.scanRecord id saved

def perform (s : Shared) (actions : List Action) : Shared := actions.foldl Action.run s

end Processes

section Property

/-- The first event is the later one. -/
def Respects : Event → Event → Prop
  | .recorded _ _ _ r true, .recorded _ .success s _ true => s ≤ r.lastSuccess
  | .started t, .recorded _ .success s _ true => ¬ (s ≤ t ∧ t < s + kRefreshSeconds)
  | _, _ => True

/-- No later write has an older last success, and no refresh starts within a day of one. -/
def NeverLost (events : List Event) : Prop := events.Pairwise Respects

/-- A scan recorded a success since the frontend loaded the file or recorded one itself. -/
def behind : List Event → Bool
  | [] => false
  | .guiLoaded :: _ => false
  | .recorded .gui .success _ _ _ :: _ => false
  | .recorded (.scan _) .success _ _ true :: _ => true
  | _ :: earlier => behind earlier

/-- Whether the frontend passes a due check, or writes back the last success it holds. -/
def actsOnCache (s : Shared) : Action → Bool
  | .guiCheck rooted => rooted && s.gui.any (due s.clock true false)
  | .guiLaunch launched saved => s.gui.isSome && saved && (launched || s.phase = .launching true)
  | .guiFinish outcome saved => s.gui.isSome && saved && outcome = some false
  | _ => false

/-- Every step that acts on the cache does so from one that lacks no scan's success. -/
def AllCurrent (s : Shared) : List Action → Prop
  | [] => True
  | action :: rest =>
    (actsOnCache s action = true → behind s.events = false) ∧ AllCurrent (action.run s) rest

instance decidableAllCurrent : (s : Shared) → (actions : List Action) → Decidable (AllCurrent s actions)
  | _, [] => .isTrue trivial
  | s, action :: rest =>
    have := decidableAllCurrent (action.run s) rest
    inferInstanceAs (Decidable (_ ∧ _))

/-- A success recorded and written at that time. -/
def Succeeded (events : List Event) (time : Int) : Prop :=
  ∃ process r, Event.recorded process .success time r true ∈ events

end Property

section Keeping
variable {clock : Int} {file : StateFile} {events : List Event} {r : DailyIndexRefresh}

def Recorded.next (now : Int) (r : DailyIndexRefresh) : Recorded → DailyIndexRefresh
  | .attempt => { r with lastAttempt := now }
  | .success => { r with lastSuccess := now, lastAttempt := now }
  | .failure => { r with lastAttempt := now }

theorem recordKind_refused (saved : Bool) {now : Int} (refused : now ≤ 0) (r : DailyIndexRefresh)
    (file : StateFile) (kind : Recorded) : recordKind saved now r file kind = (.error [], r, file) := by
  cases kind <;> exact if_pos refused

theorem recordKind_positive (saved : Bool) {now : Int} (positive : 0 < now) (r : DailyIndexRefresh)
    (file : StateFile) (kind : Recorded) :
    recordKind saved now r file kind =
      ((persist saved (stateText (kind.next now r)) file).1, kind.next now r,
        (persist saved (stateText (kind.next now r)) file).2) := by
  cases kind <;> exact if_neg (by omega)

theorem Recorded.next_fits {now : Int} (range : IsInt64 now) (positive : 0 < now) (fits : Fits r)
    (kind : Recorded) : Fits (kind.next now r) := by
  have high := range.2
  have attempt : 0 ≤ now ∧ now < 2 ^ 63 := ⟨by omega, high⟩
  cases kind with
  | success => exact ⟨attempt, attempt⟩
  | attempt => exact ⟨fits.success, attempt⟩
  | failure => exact ⟨fits.success, attempt⟩

theorem succeeded_recorded {process : Process} {kind : Recorded} {now time : Int} {saved : Bool} :
    Succeeded (.recorded process kind now r saved :: events) time ↔
      (kind = .success ∧ saved = true ∧ time = now) ∨ Succeeded events time := by
  constructor
  · rintro ⟨other, r, member⟩
    rcases List.mem_cons.mp member with same | before
    · cases same
      exact .inl ⟨rfl, rfl, rfl⟩
    · exact .inr ⟨other, r, before⟩
  · rintro (⟨rfl, rfl, rfl⟩ | ⟨other, r, before⟩)
    · exact ⟨process, r, List.mem_cons_self⟩
    · exact ⟨other, r, List.mem_cons_of_mem _ before⟩

theorem succeeded_guiLoaded {time : Int} :
    Succeeded (.guiLoaded :: events) time ↔ Succeeded events time := by
  simp [Succeeded]

theorem succeeded_started {now time : Int} :
    Succeeded (.started now :: events) time ↔ Succeeded events time := by
  simp [Succeeded]

theorem respects_recorded {process : Process} {kind : Recorded} {now : Int} {saved : Bool}
    (kept : saved = true → ∀ time, Succeeded events time → time ≤ r.lastSuccess) :
    ∀ event ∈ events, Respects (.recorded process kind now r saved) event := by
  intro event member
  cases saved with
  | false => trivial
  | true =>
    rcases event with _ | _ | ⟨other, _ | _ | _, time, r', _ | _⟩
    case recorded.success.true => exact kept rfl time ⟨other, r', member⟩
    all_goals trivial

theorem respects_started {now : Int}
    (kept : ∀ time, Succeeded events time → time + kRefreshSeconds ≤ now) :
    ∀ event ∈ events, Respects (.started now) event := by
  intro event member
  rcases event with _ | _ | ⟨other, _ | _ | _, time, r', _ | _⟩
  case recorded.success.true =>
    have day := kept time ⟨other, r', member⟩
    rintro ⟨-, early⟩
    omega
  all_goals trivial

/-- What the state file and the events have in common. -/
structure Settled (clock : Int) (file : StateFile) (events : List Event) : Prop where
  range : IsInt64 clock
  past : ∀ time, Succeeded events time → 0 < time ∧ time ≤ clock
  newest : ∀ r, load file = .ok r → ∀ time, Succeeded events time → time ≤ r.lastSuccess
  kept : NeverLost events

theorem Settled.record (settled : Settled clock file events) (fits : Fits r) (positive : 0 < clock)
    (process : Process) {kind : Recorded} {saved : Bool}
    (upToDate : kind ≠ .success → saved = true → ∀ time, Succeeded events time → time ≤ r.lastSuccess) :
    Settled clock (persist saved (stateText (kind.next clock r)) file).2
      (.recorded process kind clock (kind.next clock r) saved :: events) := by
  have next : saved = true → ∀ time, Succeeded events time → time ≤ (kind.next clock r).lastSuccess := by
    intro written time succeeded
    cases kind with
    | success => exact (settled.past time succeeded).2
    | attempt => exact upToDate (by decide) written time succeeded
    | failure => exact upToDate (by decide) written time succeeded
  refine ⟨settled.range, ?_, ?_, List.pairwise_cons.mpr ⟨respects_recorded next, settled.kept⟩⟩
  · intro time succeeded
    rcases succeeded_recorded.mp succeeded with ⟨-, -, rfl⟩ | before
    · exact ⟨positive, le_refl _⟩
    · exact settled.past time before
  · intro read loaded time succeeded
    cases saved with
    | true =>
      rw [persist, if_pos rfl, load_stateText (kind.next_fits settled.range positive fits)] at loaded
      cases loaded
      rcases succeeded_recorded.mp succeeded with ⟨rfl, -, rfl⟩ | before
      · exact le_refl _
      · exact next rfl time before
    | false =>
      rcases succeeded_recorded.mp succeeded with ⟨-, written, -⟩ | before
      · cases written
      · exact settled.newest read loaded time before

/-- An event that records nothing only has to respect the earlier ones. -/
theorem Settled.cons (settled : Settled clock file events) {event : Event}
    (same : ∀ time, Succeeded (event :: events) time ↔ Succeeded events time)
    (respects : ∀ earlier ∈ events, Respects event earlier) : Settled clock file (event :: events) := by
  refine ⟨settled.range, ?_, ?_, List.pairwise_cons.mpr ⟨respects, settled.kept⟩⟩
  · intro time succeeded
    exact settled.past time ((same time).mp succeeded)
  · intro r loaded time succeeded
    exact settled.newest r loaded time ((same time).mp succeeded)

/-- The invariant of every run that meets the condition. -/
structure Consistent (s : Shared) : Prop where
  settled : Settled s.clock s.file s.events
  guiFits : ∀ r, s.gui = some r → Fits r
  scanFits : ∀ id r, s.scans id = some r → Fits r
  cache : behind s.events = false → ∀ r, s.gui = some r →
    ∀ time, Succeeded s.events time → time ≤ r.lastSuccess

variable {s : Shared}

theorem load_toOption {r : DailyIndexRefresh} (loaded : (load file).toOption = some r) :
    load file = .ok r := by
  cases found : load file with
  | error message =>
    rw [found] at loaded
    cases loaded
  | ok other =>
    rw [found] at loaded
    cases loaded
    rfl

theorem behind_recorded_gui {kind : Recorded} (other : kind ≠ .success) {now : Int} {saved : Bool} :
    behind (.recorded .gui kind now r saved :: events) = behind events := by
  cases kind with
  | success => exact absurd rfl other
  | attempt => rfl
  | failure => rfl

theorem Consistent.phase (consistent : Consistent s) (phase : Phase) :
    Consistent { s with phase := phase } :=
  ⟨consistent.settled, consistent.guiFits, consistent.scanFits, consistent.cache⟩

theorem Consistent.update_scan (consistent : Consistent s) (id : Nat)
    {loaded : Option DailyIndexRefresh} (fits : ∀ r, loaded = some r → Fits r) (other : Nat) (r : DailyIndexRefresh)
    (found : Function.update s.scans id loaded other = some r) : Fits r := by
  by_cases same : other = id
  · rw [same, Function.update_self] at found
    exact fits r found
  · rw [Function.update_of_ne same] at found
    exact consistent.scanFits other r found

/-- A record by the frontend, from a cache that lacks nothing unless it records a success. -/
theorem Consistent.guiRecord (consistent : Consistent s) {kind : Recorded} {saved : Bool}
    (current : kind ≠ .success → s.gui.isSome = true → saved = true → behind s.events = false) :
    Consistent (s.guiRecord kind saved) := by
  simp only [Shared.guiRecord]
  split
  · exact consistent
  · rename_i r held
    have fits := consistent.guiFits r held
    rcases lt_or_ge 0 s.clock with positive | refused
    · have upToDate : kind ≠ .success → saved = true →
          ∀ time, Succeeded s.events time → time ≤ r.lastSuccess := fun other written =>
        consistent.cache (current other (by rw [held]; rfl) written) r held
      rw [recordKind_positive saved positive]
      simp only [Shared.log, if_neg (not_le.mpr positive)]
      refine ⟨consistent.settled.record fits positive .gui upToDate, ?_, consistent.scanFits, ?_⟩
      · rintro _ ⟨⟩
        exact kind.next_fits consistent.settled.range positive fits
      · rintro level _ ⟨⟩ time succeeded
        rcases succeeded_recorded.mp succeeded with ⟨rfl, -, rfl⟩ | before
        · exact le_refl _
        · by_cases success : kind = .success
          · subst success
            exact (consistent.settled.past time before).2
          · rw [behind_recorded_gui success] at level
            have older := consistent.cache level r held time before
            cases kind with
            | success => exact absurd rfl success
            | attempt => exact older
            | failure => exact older
    · rw [recordKind_refused saved refused]
      simp only [Shared.log, if_pos refused]
      exact ⟨consistent.settled, fun _ same => Option.some.inj same ▸ fits, consistent.scanFits,
        fun level _ same => Option.some.inj same ▸ consistent.cache level r held⟩

theorem Consistent.scanRecord (consistent : Consistent s) (id : Nat) (saved : Bool) :
    Consistent (s.scanRecord id saved) := by
  simp only [Shared.scanRecord]
  split
  · exact consistent
  · rename_i r held
    have fits := consistent.scanFits id r held
    have scans : ∀ other r, Function.update s.scans id none other = some r → Fits r :=
      consistent.update_scan id (by rintro r ⟨⟩)
    rcases lt_or_ge 0 s.clock with positive | refused
    · rw [recordKind_positive saved positive]
      simp only [Shared.log, if_neg (not_le.mpr positive)]
      refine ⟨consistent.settled.record fits positive (.scan id) (fun other => absurd rfl other),
        consistent.guiFits, scans, ?_⟩
      intro level r held' time succeeded
      cases saved with
      | true => cases level
      | false =>
        rcases succeeded_recorded.mp succeeded with ⟨-, written, -⟩ | before
        · cases written
        · exact consistent.cache level r held' time before
    · rw [recordKind_refused saved refused]
      simp only [Shared.log, if_pos refused]
      exact ⟨consistent.settled, consistent.guiFits, scans, consistent.cache⟩

theorem Consistent.tick (consistent : Consistent s) {seconds : Nat}
    (inside : s.clock + seconds < 2 ^ 63) : Consistent { s with clock := s.clock + seconds } := by
  have settled := consistent.settled
  have low := settled.range.1
  refine ⟨⟨⟨?_, inside⟩, ?_, settled.newest, settled.kept⟩, consistent.guiFits, consistent.scanFits,
    consistent.cache⟩
  · dsimp only
    omega
  · intro time succeeded
    have before := settled.past time succeeded
    exact ⟨before.1, by dsimp only; omega⟩

/-- Loading the file brings the cache up to date. -/
theorem Consistent.guiStart (consistent : Consistent s) : Consistent (Action.guiStart.run s) := by
  have settled := consistent.settled
  refine ⟨settled.cons (fun _ => succeeded_guiLoaded) fun _ _ => trivial, ?_, consistent.scanFits, ?_⟩
  · intro r loaded
    exact load_fits (load_toOption loaded)
  · intro level r loaded time succeeded
    exact settled.newest r (load_toOption loaded) time (succeeded_guiLoaded.mp succeeded)

/-- A refresh that is due by an up-to-date cache is a day away from every success. -/
theorem Consistent.started (consistent : Consistent s) (level : behind s.events = false)
    (passes : s.gui.any (due s.clock true false) = true) :
    Consistent { s with phase := .launching true, events := .started s.clock :: s.events } := by
  have settled := consistent.settled
  obtain ⟨r, held, isDue⟩ := (Option.any_eq_true _ _).mp passes
  have day : ∀ time, Succeeded s.events time → time + kRefreshSeconds ≤ s.clock := by
    intro time succeeded
    have newer := consistent.cache level r held time succeeded
    have positive := (settled.past time succeeded).1
    have gap := (due_gaps isDue).1 (by omega)
    omega
  refine ⟨settled.cons (fun _ => succeeded_started) (respects_started day), consistent.guiFits,
    consistent.scanFits, ?_⟩
  intro _ r held time succeeded
  exact consistent.cache level r held time (succeeded_started.mp succeeded)

theorem Consistent.run (consistent : Consistent s) (action : Action)
    (current : actsOnCache s action = true → behind s.events = false) : Consistent (action.run s) := by
  cases action with
  | tick seconds =>
    simp only [Action.run]
    split
    · rename_i inside
      exact consistent.tick inside
    · exact consistent
  | guiStart => exact consistent.guiStart
  | guiCheck rooted =>
    simp only [Action.run]
    split
    · rename_i passes
      exact consistent.started (current (by simp [actsOnCache, passes.2.1, passes.2.2])) passes.2.2
    · exact consistent
  | guiCommand =>
    simp only [Action.run]
    split
    · exact consistent.phase _
    · exact consistent
  | guiLaunch launched saved =>
    simp only [Action.run]
    split
    · rename_i daily phase
      split
      · rename_i started
        refine (consistent.guiRecord fun _ held written => current ?_).phase _
        simp [actsOnCache, held, written, started]
      · split
        · rename_i ownRefresh
          refine (consistent.guiRecord fun _ held written => current ?_).phase _
          simp [actsOnCache, held, written, phase, ownRefresh]
        · exact consistent.phase _
    · exact consistent
  | guiFinish outcome saved =>
    simp only [Action.run]
    split
    · split
      · exact consistent.phase _
      · exact (consistent.guiRecord fun other => absurd rfl other).phase _
      · refine (consistent.guiRecord fun _ held written => current ?_).phase _
        simp [actsOnCache, held, written]
    · exact consistent
  | scanLoad id =>
    exact ⟨consistent.settled, consistent.guiFits,
      consistent.update_scan id fun _ loaded => load_fits (load_toOption loaded), consistent.cache⟩
  | scanRecord id saved => exact consistent.scanRecord id saved

theorem Consistent.perform (consistent : Consistent s) (actions : List Action)
    (current : AllCurrent s actions) : Consistent (DailyIndexRefresh.perform s actions) := by
  induction actions generalizing s with
  | nil => exact consistent
  | cons action rest ih => exact ih (consistent.run action current.1) current.2

end Keeping

section Runs

theorem consistent_initial {clock : Int} (range : IsInt64 clock) (file : StateFile) :
    Consistent ⟨clock, file, none, .idle, fun _ => none, []⟩ := by
  refine ⟨⟨range, ?_, ?_, List.Pairwise.nil⟩, ?_, ?_, ?_⟩
  · rintro time ⟨_, _, ⟨⟩⟩
  · rintro r - time ⟨_, _, ⟨⟩⟩
  · rintro r ⟨⟩
  · rintro id r ⟨⟩
  · rintro - r ⟨⟩

/-- A success of nearly a day ago, which the frontend loads. Then a scan records one, and the
frontend, which never reads the file again, starts a refresh and writes the old one back. -/
def yesterday : StateFile := .content (lit "SUCH_DAILY_1 1799914400 1799914400\n")

def overtaken : List Action :=
  [.guiStart, .scanLoad 0, .scanRecord 0 true, .tick 800, .guiCheck true, .guiLaunch true true]

theorem overtaken_events :
    (perform ⟨1800000000, yesterday, none, .idle, fun _ => none, []⟩ overtaken).events =
      [.recorded .gui .attempt 1800000800 ⟨1799914400, 1800000800⟩ true, .started 1800000800,
        .recorded (.scan 0) .success 1800000000 ⟨1800000000, 1800000000⟩ true, .guiLoaded] := by
  decide +kernel

/-- Both halves fail in one run. -/
theorem scan_success_lost : ¬ ∀ (clock : Int) (file : StateFile) (actions : List Action), IsInt64 clock →
    NeverLost (perform ⟨clock, file, none, .idle, fun _ => none, []⟩ actions).events := by
  intro every
  have lost := every 1800000000 yesterday overtaken (by decide)
  rw [overtaken_events] at lost
  simp [NeverLost, Respects] at lost

/-- In a run whose frontend acts on its cache only while no scan has recorded a success since it
loaded the file or recorded one itself, a recorded success is never lost. -/
theorem perform_neverLost {clock : Int} (range : IsInt64 clock) (file : StateFile) {actions : List Action}
    (current : AllCurrent ⟨clock, file, none, .idle, fun _ => none, []⟩ actions) :
    NeverLost (perform ⟨clock, file, none, .idle, fun _ => none, []⟩ actions).events :=
  ((consistent_initial range file).perform actions current).settled.kept

/-- A scan, then the frontend, which finds the scan's success and starts nothing until a day is over. -/
theorem restarted_neverLost : NeverLost (perform ⟨1800000000, .absent, none, .idle, fun _ => none, []⟩
    [.scanLoad 0, .scanRecord 0 true, .guiStart, .tick 86400, .guiCheck true, .guiLaunch true true,
      .guiFinish (some true) true]).events :=
  perform_neverLost (by decide) .absent (by decide +kernel)

end Runs
end Such.DailyIndexRefresh
