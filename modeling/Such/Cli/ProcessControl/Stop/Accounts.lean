import Mathlib.Logic.Relation
import Such.Cli.ProcessControl.Stop

/-! What a run that stops processes did: which signals it sent and when, what its four counters say
about them, and what it leaves running. -/
namespace Such.ProcessControl
open ByteText LexicalPath

/-- A signal sent, with the number it was sent to and the time. -/
structure Sending where
  pid : Int
  signal : Signal
  time : Nat
deriving DecidableEq, Repr

/-- How stopping one process went. `gone` tells that it was seen to have ended. -/
inductive Attempt where
  | atOnce (killed : Nat) (gone : Bool)
  | asked (termed : Nat) (gone : Bool)
  | pressed (termed killed : Nat) (patience : termed + 1500 ≤ killed) (delivered gone : Bool)

namespace Attempt

/-- Whether the process was killed without being asked first. -/
def unasked : Attempt → Bool
  | atOnce .. => true
  | _ => false

def gone : Attempt → Bool
  | atOnce _ gone => gone
  | asked _ gone => gone
  | pressed _ _ _ _ gone => gone

def forced : Attempt → Bool
  | pressed _ _ _ delivered _ => delivered
  | _ => false

def sendings (pid : Int) : Attempt → List Sending
  | atOnce killed _ => [⟨pid, .kill, killed⟩]
  | asked termed _ => [⟨pid, .term, termed⟩]
  | pressed termed killed _ _ _ => [⟨pid, .term, termed⟩, ⟨pid, .kill, killed⟩]

end Attempt

def StopResult.add (out : StopResult) (attempt : Attempt) : StopResult :=
  { out with
    matched := out.matched + 1
    stopped := out.stopped + attempt.gone.toNat
    forced := out.forced + attempt.forced.toNat
    failed := out.failed + (!attempt.gone).toNat }

/-- What the counters say about these attempts. -/
def total (attempts : List (Int × Attempt)) : StopResult where
  matched := attempts.length
  stopped := attempts.countP (·.2.gone)
  forced := attempts.countP (·.2.forced)
  failed := attempts.countP (!·.2.gone)

theorem foldl_add (attempts : List (Int × Attempt)) (out : StopResult) :
    attempts.foldl (fun out a => out.add a.2) out =
      { matched := out.matched + (total attempts).matched
        stopped := out.stopped + (total attempts).stopped
        forced := out.forced + (total attempts).forced
        failed := out.failed + (total attempts).failed
        error := out.error } := by
  induction attempts generalizing out with
  | nil => rfl
  | cons a rest ih =>
    have count : ∀ p : Int × Attempt → Bool,
        (a :: rest).countP p = (p a).toNat + rest.countP p := by
      intro p
      rw [List.countP_cons, add_comm]
      cases p a <;> rfl
    rw [List.foldl_cons, ih]
    simp only [StopResult.add, total, count, List.length_cons, StopResult.mk.injEq]
    exact ⟨by omega, by omega, by omega, by omega, trivial⟩

namespace PosixHost
variable {W : Type} (host : PosixHost W)

/-- The same system with a record of the signals sent, in their order. -/
def recording : PosixHost (W × List Sending) where
  self := host.self
  steadyNow r := host.steadyNow r.1
  kill pid signal r :=
    let (sent, w) := host.kill pid signal r.1
    (sent, w, if signal = .probe then r.2 else r.2 ++ [⟨pid, signal, host.steadyNow r.1⟩])
  sleep ms r := (host.sleep ms r.1, r.2)
  steadyNow_kill pid signal r := host.steadyNow_kill pid signal r.1
  steadyNow_sleep ms r := host.steadyNow_sleep ms r.1

/-- One call that may change the system. -/
def Next (w v : W) : Prop :=
  (∃ pid signal, v = (host.kill pid signal w).2) ∨ ∃ ms, v = host.sleep ms w

/-- `v` comes after `w` in a run. -/
abbrev Later : W → W → Prop := Relation.ReflTransGen host.Next

def Gone (pid : Int) (w : W) : Prop := (host.kill pid .probe w).1 = .noSuchProcess

variable {host}

theorem later_kill (pid : Int) (signal : Signal) (w : W) : host.Later w (host.kill pid signal w).2 :=
  .single (.inl ⟨pid, signal, rfl⟩)

theorem later_waitUntil (pid : Int) (finish : Nat) (w : W) :
    host.Later w (host.waitUntil pid finish w).2 := by
  fun_induction host.waitUntil pid finish w with
  | case1 w looked early dead => exact later_kill pid .probe w
  | case2 w looked early running ih =>
    exact (later_kill pid .probe w).trans ((Relation.ReflTransGen.single (.inr ⟨40, rfl⟩)).trans ih)
  | case3 w looked late => exact later_kill pid .probe w

/-- A wait that fails takes all its time. -/
theorem waitUntil_false (pid : Int) (finish : Nat) (w : W)
    (running : (host.waitUntil pid finish w).1 = false) :
    finish ≤ host.steadyNow (host.waitUntil pid finish w).2 := by
  fun_induction host.waitUntil pid finish w with
  | case1 w looked early dead => cases running
  | case2 w looked early alive ih => exact ih running
  | case3 w looked late => exact (Nat.not_lt.1 late).trans (host.steadyNow_kill pid .probe w)

/-- Waiting sends no signal. -/
theorem record_waitUntil (pid : Int) (finish : Nat) (r : W × List Sending) :
    (host.recording.waitUntil pid finish r).2.2 = r.2 := by
  fun_induction host.recording.waitUntil pid finish r with
  | case1 r looked early dead => rfl
  | case2 r looked early running ih => exact ih
  | case3 r looked late => rfl

theorem record_kill {signal : Signal} (real : signal ≠ .probe) (pid : Int)
    (r : W × List Sending) : (host.recording.kill pid signal r).2.2 =
      r.2 ++ [⟨pid, signal, host.recording.steadyNow r⟩] := if_neg real

theorem record_countEnd (pid : Int) (out : StopResult) (r : W × List Sending) :
    ∃ gone : Bool, host.recording.countEnd pid out r = ({ out with
        stopped := out.stopped + gone.toNat
        failed := out.failed + (!gone).toNat }, (host.recording.waitDead pid 500 r).2) ∧
      (host.recording.waitDead pid 500 r).2.2 = r.2 := by
  refine ⟨(host.recording.waitDead pid 500 r).1, ?_, record_waitUntil _ _ _⟩
  simp only [countEnd]
  generalize host.recording.waitDead pid 500 r = waited
  obtain ⟨dead | dead, r'⟩ := waited <;> rfl

/-- A process is killed after its signal to end only when the wait between them was in vain. -/
theorem record_killIfAlive (pid : Int) (out : StopResult) (r : W × List Sending) :
    host.recording.killIfAlive false pid out r = (out, (host.recording.waitDead pid 1500 r).2) ∧
        (host.recording.waitDead pid 1500 r).2.2 = r.2 ∨
      ∃ (killed : Nat) (delivered : Bool), host.recording.steadyNow r + 1500 ≤ killed ∧
        (host.recording.killIfAlive false pid out r).1 =
          { out with forced := out.forced + delivered.toNat } ∧
        (host.recording.killIfAlive false pid out r).2.2 = r.2 ++ [⟨pid, .kill, killed⟩] := by
  have silent := @record_waitUntil _ host pid (host.recording.steadyNow r + 1500) r
  have patient := @waitUntil_false _ host.recording pid
    (host.recording.steadyNow r + 1500) r
  simp only [killIfAlive, Bool.false_eq_true, if_false, waitDead]
  generalize host.recording.waitUntil pid (host.recording.steadyNow r + 1500) r = waited at *
  obtain ⟨dead, v⟩ := waited
  cases dead with
  | true => exact .inl ⟨rfl, silent⟩
  | false =>
    right
    have sent := @record_kill _ host .kill (by decide) pid v
    dsimp only at patient silent ⊢
    generalize host.recording.kill pid .kill v = answer at sent
    obtain ⟨answer, u⟩ := answer
    dsimp only at sent ⊢
    rw [silent] at sent
    refine ⟨_, answer == .delivered, patient rfl, ?_⟩
    cases answer with
    | delivered => exact ⟨rfl, sent⟩
    | noSuchProcess => exact ⟨rfl, sent⟩
    | refused => exact ⟨rfl, sent⟩

/-- Stopping one process is one attempt: its signals are added to the record and its outcome to
the counters. -/
theorem record_stopOne (force : Bool) (pid : Int) (out : StopResult) (r : W × List Sending) :
    ∃ attempt : Attempt, attempt.unasked = force ∧
      (host.recording.stopOne force pid out r).1 = out.add attempt ∧
      (host.recording.stopOne force pid out r).2.2 = r.2 ++ attempt.sendings pid := by
  have real : (if force then Signal.kill else .term) ≠ .probe := by cases force <;> decide
  have sent := @record_kill _ host _ real pid r
  have later := host.recording.steadyNow_kill pid (if force then .kill else .term) r
  simp only [stopOne]
  generalize host.recording.kill pid (if force then .kill else .term) r = first at sent later
  obtain ⟨answer, v⟩ := first
  dsimp only at sent later
  have failed : ∃ attempt : Attempt, attempt.unasked = force ∧
      { out with matched := out.matched + 1, failed := out.failed + 1 } = out.add attempt ∧
      v.2 = r.2 ++ attempt.sendings pid := by
    cases force with
    | true => exact ⟨.atOnce (host.recording.steadyNow r) false, rfl, rfl, sent⟩
    | false => exact ⟨.asked (host.recording.steadyNow r) false, rfl, rfl, sent⟩
  cases answer with
  | noSuchProcess => exact failed
  | refused => exact failed
  | delivered =>
    cases force with
    | true =>
      obtain ⟨gone, ended, silent⟩ := @record_countEnd _ host pid
        { out with matched := out.matched + 1 } v
      refine ⟨.atOnce (host.recording.steadyNow r) gone, rfl, ?_⟩
      simp only [killIfAlive, if_true, ended]
      exact ⟨rfl, silent.trans sent⟩
    | false =>
      rcases @record_killIfAlive _ host pid { out with matched := out.matched + 1 } v with
        ⟨left, quiet⟩ | ⟨killed, delivered, patience, counted, pressed⟩
      · obtain ⟨gone, ended, silent⟩ := @record_countEnd _ host pid
          { out with matched := out.matched + 1 } (host.recording.waitDead pid 1500 v).2
        refine ⟨.asked (host.recording.steadyNow r) gone, rfl, ?_⟩
        simp only [left, ended]
        exact ⟨rfl, silent.trans (quiet.trans sent)⟩
      · dsimp only
        generalize host.recording.killIfAlive false pid { out with matched := out.matched + 1 } v =
          between at counted pressed ⊢
        obtain ⟨out', u⟩ := between
        dsimp only at counted pressed ⊢
        obtain ⟨gone, ended, silent⟩ := @record_countEnd _ host pid out' u
        refine ⟨.pressed (host.recording.steadyNow r) killed (by omega) delivered gone, rfl, ?_⟩
        rw [ended, counted]
        refine ⟨rfl, silent.trans (pressed.trans ?_)⟩
        rw [sent, List.append_assoc]
        rfl

theorem later_countEnd (pid : Int) (out : StopResult) (w : W) :
    host.Later w (host.countEnd pid out w).2 := by
  have waited := @later_waitUntil _ host pid (host.steadyNow w + 500) w
  simp only [countEnd]
  split <;> rename_i ended <;> exact congrArg Prod.snd ended ▸ waited

theorem later_killIfAlive (force : Bool) (pid : Int) (out : StopResult) (w : W) :
    host.Later w (host.killIfAlive force pid out w).2 := by
  have waited := @later_waitUntil _ host pid (host.steadyNow w + 1500) w
  simp only [killIfAlive]
  split
  · exact .refl
  · split <;> rename_i v ended <;> have before := congrArg Prod.snd ended ▸ waited
    · exact before
    · have sent := before.trans (later_kill pid .kill v)
      split <;> rename_i answered <;> exact congrArg Prod.snd answered ▸ sent

theorem later_stopOne (force : Bool) (pid : Int) (out : StopResult) (w : W) :
    host.Later w (host.stopOne force pid out w).2 := by
  have sent := @later_kill _ host pid (if force then .kill else .term) w
  simp only [stopOne]
  split <;> rename_i answered <;> rw [answered] at sent
  · exact sent.trans ((later_killIfAlive ..).trans (later_countEnd ..))
  · exact sent

/-- What a recorded step comes to without its record. -/
def forget {α : Type} (step : α × W × List Sending) : α × W := (step.1, step.2.1)

theorem forget_waitUntil (pid : Int) (finish : Nat) (r : W × List Sending) :
    forget (host.recording.waitUntil pid finish r) = host.waitUntil pid finish r.1 := by
  fun_induction host.recording.waitUntil pid finish r with
  | case1 r looked early dead =>
    have soon : host.steadyNow r.1 < finish := early
    have ended : (!(host.alive pid r.1).1) = true := dead
    rw [waitUntil, if_pos soon, if_pos ended]
    rfl
  | case2 r looked early running ih =>
    have soon : host.steadyNow r.1 < finish := early
    have lasts : ¬ (!(host.alive pid r.1).1) = true := running
    conv_rhs => rw [waitUntil, if_pos soon, if_neg lasts]
    exact ih
  | case3 r looked late =>
    have past : ¬ host.steadyNow r.1 < finish := late
    rw [waitUntil, if_neg past]
    rfl

theorem forget_waitDead (pid : Int) (timeout : Nat) (r : W × List Sending) :
    forget (host.recording.waitDead pid timeout r) = host.waitDead pid timeout r.1 :=
  forget_waitUntil pid _ r

theorem forget_kill (pid : Int) (signal : Signal) (r : W × List Sending) :
    forget (host.recording.kill pid signal r) = host.kill pid signal r.1 := rfl

theorem forget_countEnd (pid : Int) (out : StopResult) (r : W × List Sending) :
    forget (host.recording.countEnd pid out r) = host.countEnd pid out r.1 := by
  simp only [countEnd, ← forget_waitDead]
  generalize host.recording.waitDead pid 500 r = waited
  obtain ⟨dead | dead, v⟩ := waited <;> rfl

theorem forget_killIfAlive (force : Bool) (pid : Int) (out : StopResult) (r : W × List Sending) :
    forget (host.recording.killIfAlive force pid out r) = host.killIfAlive force pid out r.1 := by
  simp only [killIfAlive]
  cases force with
  | true => rfl
  | false =>
    simp only [Bool.false_eq_true, if_false, ← forget_waitDead]
    generalize host.recording.waitDead pid 1500 r = waited
    obtain ⟨dead | dead, v⟩ := waited
    · simp only [forget, ← forget_kill]
      generalize host.recording.kill pid .kill v = answer
      obtain ⟨answer, u⟩ := answer
      cases answer <;> rfl
    · rfl

theorem forget_stopOne (force : Bool) (pid : Int) (out : StopResult) (r : W × List Sending) :
    forget (host.recording.stopOne force pid out r) = host.stopOne force pid out r.1 := by
  simp only [stopOne, ← forget_kill]
  generalize host.recording.kill pid (if force then .kill else .term) r = answer
  obtain ⟨answer, v⟩ := answer
  cases answer with
  | noSuchProcess => rfl
  | refused => rfl
  | delivered =>
    simp only [forget]
    have killed := @forget_killIfAlive _ host force pid
      { out with matched := out.matched + 1 } v
    rw [← killed]
    exact forget_countEnd pid _ _

theorem forget_sweep {C : Type} (force : Bool) (select : Bool → C → W → Bool × Option Int)
    (failing : Bool) (listing : List C) (out : StopResult) (r : W × List Sending) :
    forget (host.recording.sweep force (fun failing entry r => select failing entry r.1) failing
      listing out r) = host.sweep force select failing listing out r.1 := by
  induction listing generalizing failing out r with
  | nil => rfl
  | cons entry rest ih =>
    simp only [sweep]
    generalize select failing entry r.1 = picked
    obtain ⟨failing, pid⟩ := picked
    cases pid with
    | none => exact ih failing out r
    | some pid =>
      have stopped := @forget_stopOne _ host force pid out r
      simp only [← stopped]
      exact ih failing _ _

theorem later_sweep {C : Type} (force : Bool) (select : Bool → C → W → Bool × Option Int)
    (failing : Bool) (listing : List C) (out : StopResult) (w : W) :
    host.Later w (host.sweep force select failing listing out w).2 := by
  induction listing generalizing failing out w with
  | nil => exact .refl
  | cons entry rest ih =>
    simp only [sweep]
    split
    · exact ih ..
    · exact (later_stopOne ..).trans (ih ..)

/-- A sweep is one attempt after the other, each at a process picked just then. -/
theorem record_sweep {C : Type} (force : Bool)
    (select : Bool → C → W × List Sending → Bool × Option Int) (failing : Bool) (listing : List C)
    (out : StopResult) (r : W × List Sending) :
    let ended := host.recording.sweep force select failing listing out r
    ∃ attempts : List (Int × Attempt),
      ended.1 = attempts.foldl (fun out a => out.add a.2) out ∧
      ended.2.2 = r.2 ++ attempts.flatMap (fun a => a.2.sendings a.1) ∧
      ∀ a ∈ attempts, a.2.unasked = force ∧ ∃ entry ∈ listing, ∃ failing v,
        host.recording.Later r v ∧ host.recording.Later v ended.2 ∧
          (select failing entry v).2 = some a.1 := by
  induction listing generalizing failing out r with
  | nil => exact ⟨[], rfl, (List.append_nil _).symm, by simp⟩
  | cons entry rest ih =>
    simp only [sweep]
    cases picked : select failing entry r with
    | mk failing' choice =>
      cases choice with
      | none =>
        obtain ⟨attempts, counted, sent, each⟩ := ih failing' out r
        refine ⟨attempts, counted, sent, fun a member => ?_⟩
        obtain ⟨how, other, listed, during⟩ := each a member
        exact ⟨how, other, .tail _ listed, during⟩
      | some pid =>
        obtain ⟨attempt, how, added, signals⟩ := @record_stopOne _ host force pid out r
        have stopped := @later_stopOne _ host.recording force pid out r
        dsimp only
        generalize host.recording.stopOne force pid out r = after at added signals stopped ⊢
        obtain ⟨out', v⟩ := after
        dsimp only at added signals stopped ⊢
        obtain ⟨attempts, counted, sent, each⟩ := ih failing' out' v
        refine ⟨(pid, attempt) :: attempts, ?_, ?_, ?_⟩
        · rw [counted, added]
          rfl
        · rw [sent, signals, List.append_assoc]
          rfl
        · intro a member
          rcases List.mem_cons.1 member with rfl | member
          · exact ⟨how, entry, .head _, failing, r, .refl, stopped.trans (later_sweep ..),
              congrArg Prod.snd picked⟩
          · obtain ⟨how, other, listed, failing, u, before, after, own⟩ := each a member
            exact ⟨how, other, .tail _ listed, failing, u, stopped.trans before, after, own⟩

/-- The record of a sweep from its start, what it adds up to and where its attempts are made. -/
theorem sweep_accounted {C : Type} (force : Bool) (select : Bool → C → W → Bool × Option Int)
    (listing : List C) (w : W) :
    let ended := host.recording.sweep force (fun failing entry r => select failing entry r.1) false
      listing {} (w, [])
    forget ended = host.sweep force select false listing {} w ∧
    ∃ attempts : List (Int × Attempt),
      ended.2.2 = attempts.flatMap (fun a => a.2.sendings a.1) ∧
      ended.1 = { total attempts with error := ended.1.error } ∧
      ∀ a ∈ attempts, a.2.unasked = force ∧ ∃ entry ∈ listing, ∃ failing v,
        host.recording.Later (w, []) v ∧ host.recording.Later v ended.2 ∧
          (select failing entry v.1).2 = some a.1 := by
  refine ⟨forget_sweep force select false listing {} (w, []), ?_⟩
  obtain ⟨attempts, counted, sent, each⟩ := @record_sweep _ host _ force
    (fun failing entry r => select failing entry r.1) false listing {} (w, [])
  refine ⟨attempts, sent, ?_, each⟩
  have summed := counted.trans (foldl_add attempts {})
  have silent := congrArg StopResult.error summed
  simp only [Nat.zero_add] at summed silent
  exact summed.trans (congrArg (fun e => { total attempts with error := e }) silent.symm)

/-- A process that has ended stays so; its number is not given out again. -/
def Lasting (host : PosixHost W) : Prop :=
  ∀ pid w v, host.Next w v → host.Gone pid w → host.Gone pid v

theorem Lasting.later (lasting : host.Lasting) {pid : Int} {w v : W} (after : host.Later w v)
    (gone : host.Gone pid w) : host.Gone pid v := by
  induction after with
  | refl => exact gone
  | tail _ next ih => exact lasting pid _ _ next ih

end PosixHost

namespace LinuxProcesses
variable {W : Type} (host : LinuxProcesses W)

def recording : LinuxProcesses (W × List Sending) where
  toPosixHost := host.toPosixHost.recording
  readlink path r := host.readlink path r.1
  isDirectory leaf r := host.isDirectory leaf r.1
  comm leaf r := host.comm leaf r.1

variable {host}

theorem ownPid_eq_some {selfExecutable leaf : Bytes} {w : W} {pid : Int}
    (own : host.ownPid selfExecutable leaf w = some pid) :
    pidOf leaf = some pid ∧ 0 < pid ∧ pid ≠ host.self ∧
      isOwnProcess selfExecutable (((host.comm leaf w).getD []).takeWhile (· != 10))
        (host.readProcExecutable pid w) = true := by
  obtain ⟨number, numbered, own⟩ := Option.bind_eq_some_iff.1 own
  simp only at own
  split_ifs at own with outside owned
  simp only [Bool.or_eq_true, decide_eq_true_eq, not_or, not_le] at outside
  cases own
  exact ⟨numbered, outside.1, outside.2, owned⟩

theorem select_eq_some {selfExecutable leaf : Bytes} {failing : Bool} {w : W} {pid : Int}
    (picked : (host.select selfExecutable failing leaf w).2 = some pid) :
    host.ownPid selfExecutable leaf w = some pid := by
  simp only [select] at picked
  split at picked
  · cases picked
  · split at picked
    · cases picked
    · cases picked
    · exact picked

variable (host)

/-- The signals of a run are those of its attempts, whose outcomes the counters add up: each is at a
process of this installation other than the caller, and kills at once where that was asked and
otherwise no earlier than a second and a half after asking the process to end. -/
theorem signals_accounted (force : Bool) (listing : List Bytes) (w : W) :
    let ended := host.recording.stopSuchProcesses force listing (w, [])
    PosixHost.forget ended = host.stopSuchProcesses force listing w ∧
    ∃ attempts : List (Int × Attempt),
      ended.2.2 = attempts.flatMap (fun a => a.2.sendings a.1) ∧
      ended.1 = { total attempts with error := ended.1.error } ∧
      ∀ a ∈ attempts, a.2.unasked = force ∧ a.1 ≠ host.self ∧ 0 < a.1 ∧
        ∃ leaf ∈ listing, pidOf leaf = some a.1 ∧
          ∃ v, host.recording.Later (w, []) v ∧ host.recording.Later v ended.2 ∧
            isOwnProcess (host.readProcExecutable host.self w)
              (((host.comm leaf v.1).getD []).takeWhile (· != 10))
              (host.readProcExecutable a.1 v.1) = true := by
  have place : host.recording.readProcExecutable host.recording.self (w, []) =
      host.readProcExecutable host.self w := rfl
  simp only [stopSuchProcesses, place]
  split
  · exact ⟨rfl, [], rfl, rfl, by simp⟩
  · obtain ⟨same, attempts, sent, counted, each⟩ := PosixHost.sweep_accounted force
      (host.select (host.readProcExecutable host.self w)) listing w
    refine ⟨same, attempts, sent, counted, fun a member => ?_⟩
    obtain ⟨how, leaf, listed, failing, v, before, after, picked⟩ := each a member
    obtain ⟨numbered, positive, other, own⟩ := ownPid_eq_some (select_eq_some picked)
    exact ⟨how, other, positive, leaf, listed, numbered, v, before, after, own⟩

end LinuxProcesses

namespace AppleProcesses
variable {W : Type} (host : AppleProcesses W)

def recording : AppleProcesses (W × List Sending) where
  toPosixHost := host.toPosixHost.recording
  pidBytes r := host.pidBytes r.1
  fillPids room r := host.fillPids room r.1
  procName pid r := host.procName pid r.1

/-- The same account, of processes that may lie anywhere. -/
theorem attempts_at_names (force : Bool) (w : W) :
    let ended := host.recording.stopSuchProcesses force (w, [])
    PosixHost.forget ended = host.stopSuchProcesses force w ∧
    ∃ attempts : List (Int × Attempt),
      ended.2.2 = attempts.flatMap (fun a => a.2.sendings a.1) ∧
      ended.1 = { total attempts with error := ended.1.error } ∧
      ∀ a ∈ attempts, a.2.unasked = force ∧ a.1 ≠ host.self ∧ 0 < a.1 ∧
        ∃ v, host.recording.Later (w, []) v ∧ host.recording.Later v ended.2 ∧
          ∃ name ∈ host.procName a.1 v.1, isTargetName (cstr name) = true := by
  have size : host.recording.pidBytes (w, []) = host.pidBytes w := rfl
  have filled : ∀ room, host.recording.fillPids room (w, []) = host.fillPids room w := fun _ => rfl
  simp only [stopSuchProcesses, size, filled]
  split
  · exact ⟨rfl, [], rfl, rfl, by simp⟩
  · split
    · exact ⟨rfl, [], rfl, rfl, by simp⟩
    · obtain ⟨same, attempts, sent, counted, each⟩ := PosixHost.sweep_accounted force host.select
        ((host.fillPids ((host.pidBytes w).toNat / 4 + 16) w).2.take
          ((host.fillPids ((host.pidBytes w).toNat / 4 + 16) w).1.toNat / 4)) w
      refine ⟨same, attempts, sent, counted, fun a member => ?_⟩
      obtain ⟨how, pid, -, failing, v, before, after, picked⟩ := each a member
      simp only [select] at picked
      split_ifs at picked with outside
      simp only [Bool.or_eq_true, decide_eq_true_eq, not_or, not_le] at outside
      split at picked
      · cases picked
      · rename_i name named
        dsimp only at picked
        split_ifs at picked with target
        cases picked
        exact ⟨how, outside.2, outside.1, v, before, after, name, named, target⟩

end AppleProcesses
end Such.ProcessControl
