import Such.Platform.X11Frontend

/-! Whether the frontend stays away from the private runtime while an index worker owns
the persistent state. -/
namespace Such.X11Frontend
open ByteText CivilTime SearchDialect QueryCommands RuntimeClient IndexWorkerLauncher Frontend
open ResponsiveLayout SwipeActions DrivenMachine

namespace UiState
variable {W σ : Type} (host : X11Host W σ) {s t u : UiState W σ}

/-- While a worker is tracked the client is not loaded, and no call has run `ensure_ready`
with a worker tracked. -/
def Exclusive (s : UiState W σ) : Prop :=
  s.demo = false → (s.indexWorker.valid = true → s.runtime.available = false) ∧ true ∉ s.ensured

/-- The fields the boundary depends on are as they were. -/
structure Untouched (s t : UiState W σ) : Prop where
  demo : t.demo = s.demo
  worker : t.indexWorker = s.indexWorker
  available : t.runtime.available = s.runtime.available
  ensured : t.ensured = s.ensured

theorem Untouched.refl (s : UiState W σ) : Untouched s s := ⟨rfl, rfl, rfl, rfl⟩

theorem Untouched.trans (first : Untouched s t) (second : Untouched t u) : Untouched s u :=
  ⟨second.demo.trans first.demo, second.worker.trans first.worker,
    second.available.trans first.available, second.ensured.trans first.ensured⟩

theorem Untouched.exclusive (same : Untouched s t) : Exclusive s ↔ Exclusive t := by
  simp only [Exclusive]
  rw [same.demo, same.worker, same.available, same.ensured]

theorem untouched_rootItems (s : UiState W σ) : Untouched s (s.rootItems host).2 := by
  have kept := Client.available_roots host.library s.runtime
  simp only [rootItems]
  rcases listed : s.runtime.roots host.library with ⟨⟨roots, error⟩, runtime⟩
  rw [listed] at kept
  dsimp only
  split
  · exact ⟨rfl, rfl, kept, rfl⟩
  · exact ⟨rfl, rfl, kept, rfl⟩

theorem untouched_showSearch (s : UiState W σ) : Untouched s (s.showSearch host) := by
  unfold showSearch
  dsimp only
  split
  · exact ⟨rfl, rfl, rfl, rfl⟩
  · split
    · exact ⟨rfl, rfl, rfl, rfl⟩
    · exact ⟨rfl, rfl, rfl, rfl⟩

theorem untouched_showQuery (s : UiState W σ) : Untouched s (s.showQuery host) := by
  unfold showQuery
  dsimp only
  split
  · exact ⟨rfl, rfl, rfl, rfl⟩
  · split
    · exact ⟨rfl, rfl, rfl, rfl⟩
    · split
      · split
        · exact ⟨rfl, rfl, rfl, rfl⟩
        · split
          · have listed := untouched_rootItems host { s with
              searchError := [], rootPickerKind := .noCommand,
              suggestions := autocomplete s.query .unixLike (s.runtime.observed host.library) }
            exact ⟨listed.demo, listed.worker, listed.available, listed.ensured⟩
          · exact ⟨rfl, rfl, rfl, rfl⟩
      · have searched := untouched_showSearch host { s with
          searchError := [], rootPickerKind := .noCommand,
          suggestions := autocomplete s.query .unixLike (s.runtime.observed host.library) }
        exact ⟨searched.demo, searched.worker, searched.available, searched.ensured⟩

theorem untouched_clampSelection (s : UiState W σ) : Untouched s s.clampSelection :=
  ⟨rfl, rfl, rfl, rfl⟩

theorem untouched_settleScroll (reset : Bool) (s : UiState W σ) :
    Untouched s (s.settleScroll host reset) := ⟨rfl, rfl, rfl, rfl⟩

theorem untouched_closeSwipe (s : UiState W σ) : Untouched s s.closeSwipe := ⟨rfl, rfl, rfl, rfl⟩

/-- A query refresh searches and lists, and neither loads nor releases the client. -/
theorem untouched_refreshQuery (resetScroll : Bool) (s : UiState W σ) :
    Untouched s (s.refreshQuery host resetScroll) := by
  simp only [refreshQuery]
  apply (untouched_showQuery host s).trans
  apply (untouched_clampSelection _).trans
  apply (untouched_settleScroll host resetScroll _).trans
  exact untouched_closeSwipe _

theorem untouched_readStatus (s : UiState W σ) : Untouched s (s.readStatus host).2 :=
  ⟨rfl, rfl, Client.available_status host.library s.runtime, rfl⟩

theorem untouched_keepStatus (status : RuntimeStatus) (s : UiState W σ) :
    Untouched s (s.keepStatus status) := ⟨rfl, rfl, rfl, rfl⟩

theorem untouched_draw (s : UiState W σ) : Untouched s (s.draw host) := by
  simp only [draw]
  split
  · exact Untouched.refl s
  · exact untouched_readStatus host s

theorem untouched_recordDaily
    (record : (Bytes → W → Except Bytes Unit × W) → Int → DailyIndexRefresh → W →
      Except Bytes Unit × DailyIndexRefresh × W)
    (s : UiState W σ) : Untouched s (s.recordDaily host record) := by
  unfold recordDaily
  split
  · dsimp only
    split <;> exact ⟨rfl, rfl, rfl, rfl⟩
  · exact Untouched.refl s

theorem untouched_reportIndexWorker (workerExitCode : Int) (s : UiState W σ) :
    Untouched s (s.reportIndexWorker host workerExitCode) := by
  simp only [reportIndexWorker]
  rcases read : s.readStatus host with ⟨status, t⟩
  have same : Untouched s t := by
    have kept := untouched_readStatus host s
    rwa [read] at kept
  dsimp only
  have refreshed : Untouched s ((t.keepStatus status).refreshQuery host false) :=
    (same.trans (untouched_keepStatus status t)).trans (untouched_refreshQuery host false _)
  have ended : ∀ v : UiState W σ, Untouched v { v with indexWorkerAction := [] } :=
    fun v => ⟨rfl, rfl, rfl, rfl⟩
  apply Untouched.trans _ (ended _)
  apply Untouched.trans _ (untouched_recordDaily host _ _)
  split
  · exact refreshed.trans ⟨rfl, rfl, rfl, rfl⟩
  · exact refreshed

theorem untouched_ensureSelectedVisible (s : UiState W σ) :
    Untouched s (s.ensureSelectedVisible host) := by
  simp only [ensureSelectedVisible]
  split
  · exact Untouched.refl s
  · exact ⟨rfl, rfl, rfl, rfl⟩

theorem untouched_completeFirst (s : UiState W σ) : Untouched s (s.completeFirst host) := by
  simp only [completeFirst]
  split
  · exact Untouched.refl s
  · apply Untouched.trans _ (untouched_refreshQuery host true _)
    exact ⟨rfl, rfl, rfl, rfl⟩

theorem untouched_acceptQuery (query : Bytes) (s : UiState W σ) :
    Untouched s (s.acceptQuery host query) := by
  simp only [acceptQuery]
  rcases s.inputGate.accept query with ⟨changed, gate⟩
  dsimp only
  split
  · apply Untouched.trans _ (untouched_refreshQuery host true _)
    exact ⟨rfl, rfl, rfl, rfl⟩
  · exact ⟨rfl, rfl, rfl, rfl⟩

theorem untouched_executeAgentCommand (run : s.executeAgentCommandLinux host = some t) :
    Untouched s t := by
  simp only [executeAgentCommandLinux] at run
  have kept := Client.available_roots host.library s.runtime
  rcases listed : s.runtime.roots host.library with ⟨⟨roots, error⟩, runtime⟩
  rw [listed] at kept run
  dsimp only at run
  split at run
  · split at run
    · rw [← Option.some.inj run]
      exact ⟨rfl, rfl, kept, rfl⟩
    · rw [← Option.some.inj run]
      apply Untouched.trans _ (untouched_refreshQuery host true _)
      exact ⟨rfl, rfl, kept, rfl⟩
  · contradiction

theorem untouched_executeFontCommand (run : s.executeFontCommandLinux host = some t) :
    Untouched s t := by
  unfold executeFontCommandLinux at run
  dsimp only at run
  split at run
  · rw [← Option.some.inj run]
    apply Untouched.trans _ (untouched_refreshQuery host true _)
    exact ⟨rfl, rfl, rfl, rfl⟩
  · contradiction

theorem untouched_wheel (up : Bool) (s : UiState W σ) : Untouched s (s.wheel host up) :=
  ⟨rfl, rfl, rfl, rfl⟩

theorem untouched_beginSwipe (row x y : Int) (s : UiState W σ) :
    Untouched s (s.beginSwipe host row x y) := ⟨rfl, rfl, rfl, rfl⟩

theorem untouched_motion (x y : Int) (s : UiState W σ) : Untouched s (s.motion host x y) := by
  simp only [motion]
  split
  · exact Untouched.refl s
  · apply Untouched.trans _ (untouched_draw host _)
    exact ⟨rfl, rfl, rfl, rfl⟩

theorem untouched_followRuntime (s : UiState W σ) : Untouched s (s.followRuntime host) := by
  simp only [followRuntime]
  split
  · exact Untouched.refl s
  · rcases read : s.readStatus host with ⟨status, t⟩
    have same : Untouched s t := by
      have kept := untouched_readStatus host s
      rwa [read] at kept
    dsimp only
    split
    · apply Untouched.trans _ (untouched_draw host _)
      have stored : Untouched s (t.keepStatus status) := same.trans (untouched_keepStatus status t)
      split
      · exact stored.trans (untouched_refreshQuery host false _)
      · exact stored
    · exact same

/-- The mode is the same and the boundary, where it held, still holds. -/
def Keeps (s t : UiState W σ) : Prop := t.demo = s.demo ∧ (Exclusive s → Exclusive t)

theorem Untouched.keeps (same : Untouched s t) : Keeps s t := ⟨same.demo, same.exclusive.mp⟩

theorem Keeps.refl (s : UiState W σ) : Keeps s s := ⟨rfl, id⟩

theorem Keeps.trans (first : Keeps s t) (second : Keeps t u) : Keeps s u :=
  ⟨second.1.trans first.1, fun held => second.2 (first.2 held)⟩

/-- Without a tracked worker the client may be loaded, used and released freely. -/
theorem keeps_of_idle (idle : s.indexWorker.valid = false) (demo : t.demo = s.demo)
    (worker : t.indexWorker = s.indexWorker) (ensured : t.ensured = s.ensured ++ [s.indexWorker.valid]) :
    Keeps s t := by
  refine ⟨demo, ?_⟩
  intro held production
  have before := (held (demo ▸ production)).2
  constructor
  · intro tracked
    rw [worker, idle] at tracked
    contradiction
  · rw [ensured, idle]
    intro trespass
    rcases List.mem_append.mp trespass with early | now
    · exact before early
    · exact Bool.noConfusion (List.mem_singleton.mp now)

theorem keeps_loadRuntime (idle : s.indexWorker.valid = false) :
    Keeps s (s.loadRuntime host).2 := keeps_of_idle idle rfl rfl rfl

theorem keeps_reload (idle : s.indexWorker.valid = false) (workerExitCode : Int) :
    Keeps s (s.reloadRuntimeAfterIndexWorker host workerExitCode) := by
  have kept := keeps_loadRuntime host idle
  simp only [reloadRuntimeAfterIndexWorker]
  rcases loaded : s.loadRuntime host with ⟨result, t⟩
  rw [loaded] at kept
  cases result with
  | error e => exact kept.trans (Untouched.keeps ⟨rfl, rfl, rfl, rfl⟩)
  | ok u => exact kept.trans (untouched_reportIndexWorker host workerExitCode t).keeps

/-- A poll changes the ticket alone, and only a finished worker is let go. -/
theorem pollTracked_cases (tracked : s.indexWorker.valid = true) :
    ((s.pollTracked host).1.1 = .running ∧ Untouched s { (s.pollTracked host).2 with
        indexWorker := s.indexWorker } ∧ (s.pollTracked host).2.indexWorker.valid = true) ∨
      ((s.pollTracked host).1.1 ≠ .running ∧ (s.pollTracked host).2.indexWorker.valid = false) := by
  rcases waited : host.wait s.indexWorker.nativeProcess s.world with ⟨answer, world⟩
  have valid : (pollIndexWorker answer s.indexWorker).2.2.valid = true ↔
      (pollIndexWorker answer s.indexWorker).1 = .running := poll_valid_iff tracked
  have poll : (s.pollTracked host).1.1 = (pollIndexWorker answer s.indexWorker).1 := by
    simp only [pollTracked, waited]
  have ticket : (s.pollTracked host).2.indexWorker = (pollIndexWorker answer s.indexWorker).2.2 := by
    simp only [pollTracked, waited]
  rw [← poll, ← ticket] at valid
  by_cases running : (s.pollTracked host).1.1 = .running
  · exact Or.inl ⟨running, ⟨rfl, rfl, rfl, rfl⟩, valid.mpr running⟩
  · refine Or.inr ⟨running, ?_⟩
    cases held : (s.pollTracked host).2.indexWorker.valid with
    | false => rfl
    | true => exact absurd (valid.mp held) running

theorem keeps_pollTracked (s : UiState W σ) : Keeps s (s.pollTracked host).2 := by
  refine ⟨rfl, ?_⟩
  intro held production
  have before := held production
  refine ⟨?_, before.2⟩
  intro tracked
  cases was : s.indexWorker.valid with
  | true => exact before.1 was
  | false =>
    -- A closed ticket is not polled into an open one.
    have closed : (s.pollTracked host).2.indexWorker = s.indexWorker := by
      simp only [pollTracked, pollIndexWorker, was, Bool.not_false, if_true]
    rw [closed, was] at tracked
    contradiction

theorem keeps_pollIndexWorkerLinux (s : UiState W σ) : Keeps s (s.pollIndexWorkerLinux host) := by
  simp only [pollIndexWorkerLinux]
  cases tracked : s.indexWorker.valid with
  | false => exact Keeps.refl s
  | true =>
    have kept := keeps_pollTracked host s
    have ended := pollTracked_cases host tracked
    rcases polled : s.pollTracked host with ⟨⟨poll, exitCode⟩, t⟩
    rw [polled] at kept ended
    cases poll with
    | running => exact kept
    | succeeded =>
      rcases ended with ⟨running, -⟩ | ⟨-, idle⟩
      · contradiction
      · exact kept.trans (keeps_reload host idle exitCode)
    | failed =>
      rcases ended with ⟨running, -⟩ | ⟨-, idle⟩
      · contradiction
      · exact kept.trans (keeps_reload host idle exitCode)

/-- Before the worker starts the client has been released; a failed launch has no worker
to keep out of the way of. -/
theorem keeps_launchIndexWorker (request : IndexWorkerRequest) (action : Bytes)
    (s : UiState W σ) : Keeps s (s.launchIndexWorker host request action).2 := by
  unfold launchIndexWorker
  rcases asked : host.launchSite s.world with ⟨site, world⟩
  dsimp only
  have launch := launch_valid_iff .unixLike site request s.indexWorker
  rcases launched : launchIndexWorkerTracked .unixLike site request s.indexWorker with ⟨result, ticket⟩
  rw [launched] at launch
  cases result with
  | error launchError =>
    have closed : ticket.valid = false := by
      cases held : ticket.valid with
      | false => rfl
      | true => exact absurd (launch.mp held) (by simp only [reduceCtorEq, not_false_eq_true])
    have released : Keeps s { s with
        runtime := s.runtime.unload, results := [], suggestions := [], world := world,
        indexWorker := ticket } := by
      refine ⟨rfl, ?_⟩
      intro held production
      exact ⟨fun _ => rfl, (held production).2⟩
    apply (released.trans (keeps_loadRuntime host closed)).trans
    exact Untouched.keeps ⟨rfl, rfl, rfl, rfl⟩
  | ok u =>
    have started : Keeps s { s with
        runtime := s.runtime.unload, results := [], suggestions := [], world := world,
        indexWorker := ticket, indexWorkerAction := action } := by
      refine ⟨rfl, ?_⟩
      intro held production
      exact ⟨fun _ => rfl, (held production).2⟩
    apply (started.trans (untouched_recordDaily host DailyIndexRefresh.recordAttempt _).keeps).trans
    exact Untouched.keeps ⟨rfl, rfl, rfl, rfl⟩

theorem keeps_startIndexWorkerLinux (request : IndexWorkerRequest) (action : Bytes)
    (s : UiState W σ) : Keeps s (s.startIndexWorkerLinux host request action).2 := by
  simp only [startIndexWorkerLinux]
  cases tracked : s.indexWorker.valid with
  | false => exact keeps_launchIndexWorker host request action s
  | true =>
    have kept := keeps_pollTracked host s
    have ended := pollTracked_cases host tracked
    have again : ∀ {t : UiState W σ}, Keeps s t → t.indexWorker.valid = false → ∀ exitCode,
        Keeps s ((t.reloadRuntimeAfterIndexWorker host exitCode).launchIndexWorker host request
          action).2 := by
      intro t kept idle exitCode
      apply (kept.trans (keeps_reload host idle exitCode)).trans
      exact keeps_launchIndexWorker host request action _
    rcases polled : s.pollTracked host with ⟨⟨poll, exitCode⟩, t⟩
    rw [polled] at kept ended
    cases poll with
    | running => exact kept
    | succeeded =>
      rcases ended with ⟨running, -⟩ | ⟨-, idle⟩
      · contradiction
      · exact again kept idle exitCode
    | failed =>
      rcases ended with ⟨running, -⟩ | ⟨-, idle⟩
      · contradiction
      · exact again kept idle exitCode

theorem keeps_refuseCommand (message : Bytes) (s : UiState W σ) : Keeps s (s.refuseCommand message) :=
  Untouched.keeps ⟨rfl, rfl, rfl, rfl⟩

theorem keeps_executeRootCommand (command : IndexCommand) (s : UiState W σ) :
    Keeps s (s.executeRootCommand host command) := by
  simp only [executeRootCommand]
  cases s.commandRoot command with
  | none => exact (untouched_refreshQuery host false s).keeps
  | some root =>
    dsimp only
    split
    · exact keeps_refuseCommand _ s
    · split
      all_goals
        rename_i started
        have kept := congrArg (fun r => Keeps s r.2) started
        dsimp only at kept
        rw [eq_iff_iff] at kept
        have reached := kept.mp (keeps_startIndexWorkerLinux host _ _ s)
      · exact reached.trans (keeps_refuseCommand _ _)
      · exact reached.trans (Untouched.keeps ⟨rfl, rfl, rfl, rfl⟩)

theorem keeps_executeReindexCommand (s : UiState W σ) : Keeps s (s.executeReindexCommand host) := by
  have kept := keeps_startIndexWorkerLinux host {} (lit "Index rebuild") s
  simp only [executeReindexCommand]
  rcases started : s.startIndexWorkerLinux host {} (lit "Index rebuild") with ⟨result, t⟩
  rw [started] at kept
  cases result with
  | error e => exact kept.trans (keeps_refuseCommand _ t)
  | ok u => exact kept.trans (Untouched.keeps ⟨rfl, rfl, rfl, rfl⟩)

theorem keeps_executeIndexCommand (run : s.executeIndexCommandLinux host = some t) : Keeps s t := by
  unfold executeIndexCommandLinux at run
  dsimp only at run
  split at run
  · rw [← Option.some.inj run]
    exact keeps_executeRootCommand host _ s
  · rw [← Option.some.inj run]
    exact keeps_executeRootCommand host _ s
  · rw [← Option.some.inj run]
    exact keeps_executeReindexCommand host s
  · rw [← Option.some.inj run]
    exact (untouched_refreshQuery host true s).keeps
  · contradiction

/-- The action is one of the two that change a row through the client. -/
def changesRow (action : ResultAction) : Prop := action = .toggleIndex ∨ action = .togglePin

/-- A performed action goes through the client: the row exists and the mode is not the
demonstration. -/
structure GoesThroughClient (s : UiState W σ) (row : Int) (action : ResultAction) : Prop where
  production : s.demo = false
  changes : changesRow action
  low : 0 ≤ row
  high : row < s.results.length

/-- The client loads itself although a worker is tracked. -/
def TrespassingAction (s : UiState W σ) (row : Int) (action : ResultAction) : Prop :=
  s.indexWorker.valid = true ∧ GoesThroughClient s row action

theorem mutateRow_boundary (call : Client σ → W → Except Bytes Unit × Client σ × W)
    (s : UiState W σ) :
    (s.mutateRow host call).demo = s.demo ∧ (s.mutateRow host call).indexWorker = s.indexWorker ∧
      (s.mutateRow host call).ensured = s.ensured ++ [s.indexWorker.valid] := by
  simp only [mutateRow]
  rcases call s.runtime s.world with ⟨result, runtime, world⟩
  have refreshed := untouched_refreshQuery host false { s with
    runtime := runtime, world := world, ensured := s.ensured ++ [s.indexWorker.valid] }
  exact ⟨refreshed.demo, refreshed.worker, refreshed.ensured⟩

theorem keeps_mutateRow (idle : s.indexWorker.valid = false)
    (call : Client σ → W → Except Bytes Unit × Client σ × W) : Keeps s (s.mutateRow host call) := by
  obtain ⟨demo, worker, ensured⟩ := mutateRow_boundary host call s
  exact keeps_of_idle idle demo worker ensured

/-- What a performed action does with the row it finds. -/
theorem performAction_cases (row : Int) (action : ResultAction) (s : UiState W σ) :
    (¬ GoesThroughClient s row action ∧ Untouched s (s.performAction host row action)) ∨
      (GoesThroughClient s row action ∧
        ∃ call, Untouched (s.mutateRow host call) (s.performAction host row action)) := by
  simp only [performAction]
  split
  · rename_i below
    refine Or.inl ⟨?_, Untouched.refl s⟩
    intro through
    exact absurd through.low (by omega)
  · rename_i inside
    cases found : s.results[row.toNat]? with
    | none =>
      refine Or.inl ⟨?_, Untouched.refl s⟩
      intro through
      have missing := List.getElem?_eq_none_iff.mp found
      have high := through.high
      omega
    | some item =>
      have high : row < s.results.length := by
        have bound := (List.getElem?_eq_some_iff.mp found).1
        omega
      have open_only : ¬ changesRow action → ¬ GoesThroughClient s row action :=
        fun leaves through => leaves through.changes
      have demo_only : s.demo = true → ¬ GoesThroughClient s row action :=
        fun demo through => Bool.noConfusion (through.production.symm.trans demo)
      cases action with
      | openLocation =>
        exact Or.inl ⟨open_only (by rintro (same | same) <;> contradiction), untouched_closeSwipe s⟩
      | openProperties =>
        exact Or.inl ⟨open_only (by rintro (same | same) <;> contradiction), untouched_closeSwipe s⟩
      | editAppearance =>
        exact Or.inl ⟨open_only (by rintro (same | same) <;> contradiction), untouched_closeSwipe s⟩
      | toggleIndex =>
        dsimp only
        by_cases demo : s.demo = true
        · rw [if_pos demo]
          refine Or.inl ⟨demo_only demo, ?_⟩
          apply Untouched.trans _ (untouched_closeSwipe _)
          exact ⟨rfl, rfl, rfl, rfl⟩
        · rw [if_neg demo]
          have through : GoesThroughClient s row .toggleIndex :=
            ⟨Bool.eq_false_iff.mpr demo, Or.inl rfl, by omega, high⟩
          exact Or.inr ⟨through, Client.setIndexed host.library host.look item.path !item.indexed,
            untouched_closeSwipe _⟩
      | togglePin =>
        dsimp only
        by_cases demo : s.demo = true
        · rw [if_pos demo]
          refine Or.inl ⟨demo_only demo, ?_⟩
          apply Untouched.trans _ (untouched_closeSwipe _)
          exact ⟨rfl, rfl, rfl, rfl⟩
        · rw [if_neg demo]
          have through : GoesThroughClient s row .togglePin :=
            ⟨Bool.eq_false_iff.mpr demo, Or.inr rfl, by omega, high⟩
          exact Or.inr ⟨through, Client.setPinned host.library host.look item.path !item.pinned,
            untouched_closeSwipe _⟩

theorem keeps_performAction (row : Int) (action : ResultAction) (s : UiState W σ)
    (permitted : ¬ TrespassingAction s row action) : Keeps s (s.performAction host row action) := by
  rcases performAction_cases host row action s with ⟨-, same⟩ | ⟨through, call, same⟩
  · exact same.keeps
  · have idle : s.indexWorker.valid = false := by
      cases tracked : s.indexWorker.valid with
      | false => rfl
      | true => exact absurd ⟨tracked, through⟩ permitted
    exact (keeps_mutateRow host idle call).trans same.keeps

/-- A trespass is on the record, whatever the load came to. -/
theorem performAction_trespass (row : Int) (action : ResultAction) (s : UiState W σ)
    (trespass : TrespassingAction s row action) : ¬ Exclusive (s.performAction host row action) := by
  obtain ⟨tracked, through⟩ := trespass
  rcases performAction_cases host row action s with ⟨outside, -⟩ | ⟨-, call, same⟩
  · exact absurd through outside
  · obtain ⟨demo, -, ensured⟩ := mutateRow_boundary host call s
    intro held
    apply (held (same.demo.trans (demo.trans through.production))).2
    rw [same.ensured, ensured, tracked]
    exact List.mem_append_right _ (List.mem_singleton_self true)

/-- The row action an event performs, as the handlers dispatch it. -/
def performed (event : Event) (s : UiState W σ) : Option (Int × ResultAction) :=
  match event with
  | .keyPress key => s.shortcut key
  | .buttonPress button x y => if button = 1 then s.hitSwipeAction host x y else none
  | .buttonRelease button =>
    if button ≠ 1 ∨ s.swipe.state.dragging = false then none
    else (s.swipe.finish (s.width / s.uiScale)).1.map (s.swipe.state.row, ·)
  | _ => none

/-- The event changes a row through the client while a worker is tracked. -/
def Trespasses (s : UiState W σ) (input : W × Event) : Prop :=
  ∃ row action, performed host input.2 { s with world := input.1 } = some (row, action) ∧
    TrespassingAction s row action

theorem keeps_typedKey (key : KeyPress) (s : UiState W σ)
    (permitted : ∀ row action, s.shortcut key = some (row, action) →
      ¬ TrespassingAction s row action) : Keeps s (s.typedKey host key) := by
  simp only [typedKey]
  cases asked : s.shortcut key with
  | some pair => exact keeps_performAction host pair.1 pair.2 s (permitted pair.1 pair.2 asked)
  | none =>
    dsimp only
    split
    · exact (untouched_acceptQuery host _ s).keeps
    · exact Keeps.refl s

theorem keeps_returnKey (key : KeyPress) (s : UiState W σ)
    (permitted : ∀ row action, s.shortcut key = some (row, action) →
      ¬ TrespassingAction s row action) : Keeps s (s.returnKey host key) := by
  simp only [returnKey]
  split
  · rename_i t run
    cases agent : s.executeAgentCommandLinux host with
    | some u =>
      rw [agent] at run
      rw [← Option.some.inj run]
      exact (untouched_executeAgentCommand host agent).keeps
    | none =>
      rw [agent] at run
      cases font : s.executeFontCommandLinux host with
      | some u =>
        rw [font] at run
        rw [← Option.some.inj run]
        exact (untouched_executeFontCommand host font).keeps
      | none =>
        rw [font] at run
        exact keeps_executeIndexCommand host run
  · split
    · exact Keeps.refl s
    · exact keeps_typedKey host key s permitted

theorem keeps_keyPress {key : KeyPress} (run : s.keyPress host key = some t)
    (permitted : ∀ row action, s.shortcut key = some (row, action) →
      ¬ TrespassingAction s row action) : Keeps s t := by
  have typed := keeps_typedKey host key s permitted
  simp only [keyPress] at run
  split at run
  · rw [← Option.some.inj run]
    exact (untouched_acceptQuery host _ s).keeps
  · split at run
    · split at run
      · rw [← Option.some.inj run]
        exact Untouched.keeps ⟨rfl, rfl, rfl, rfl⟩
      · contradiction
    · split at run
      · rw [← Option.some.inj run]
        exact typed
      · rw [← Option.some.inj run]
        exact (untouched_acceptQuery host _ s).keeps
    · rw [← Option.some.inj run]
      exact (untouched_completeFirst host s).keeps
    · split at run
      · rw [← Option.some.inj run]
        exact typed
      · rw [← Option.some.inj run]
        apply Keeps.trans _ (untouched_ensureSelectedVisible host _).keeps
        exact Untouched.keeps ⟨rfl, rfl, rfl, rfl⟩
    · split at run
      · rw [← Option.some.inj run]
        exact typed
      · rw [← Option.some.inj run]
        apply Keeps.trans _ (untouched_ensureSelectedVisible host _).keeps
        exact Untouched.keeps ⟨rfl, rfl, rfl, rfl⟩
    · rw [← Option.some.inj run]
      exact keeps_returnKey host key s permitted
    · rw [← Option.some.inj run]
      exact keeps_returnKey host key s permitted
    · rw [← Option.some.inj run]
      exact typed

theorem keeps_firstButton (x y : Int) (s : UiState W σ)
    (permitted : ∀ row action, s.hitSwipeAction host x y = some (row, action) →
      ¬ TrespassingAction s row action) : Keeps s (s.firstButton host x y) := by
  simp only [firstButton]
  cases hit : s.hitSwipeAction host x y with
  | some pair => exact keeps_performAction host pair.1 pair.2 s (permitted pair.1 pair.2 hit)
  | none =>
    dsimp only
    split
    · exact (untouched_beginSwipe host _ x y s).keeps
    · exact (untouched_closeSwipe s).keeps

theorem keeps_refreshDaily (s : UiState W σ) : Keeps s (s.refreshDaily host) := by
  have kept := Client.available_roots host.library s.runtime
  simp only [refreshDaily]
  split
  · exact Keeps.refl s
  · rcases listed : s.runtime.roots host.library with ⟨⟨roots, error⟩, runtime⟩
    rw [listed] at kept
    dsimp only
    have asked : Keeps s { s with runtime := runtime } := Untouched.keeps ⟨rfl, rfl, kept, rfl⟩
    split
    · exact asked
    · have started := asked.trans (keeps_startIndexWorkerLinux host {} (lit "Daily index refresh") _)
      rcases launched : startIndexWorkerLinux host {} (lit "Daily index refresh")
        { s with runtime := runtime } with ⟨result, t⟩
      rw [launched] at started
      cases result with
      | ok u => exact started.trans (untouched_draw host t).keeps
      | error e => exact started.trans (Untouched.keeps ⟨rfl, rfl, rfl, rfl⟩)

theorem keeps_idle (s : UiState W σ) : Keeps s (s.idle host) := by
  unfold idle
  dsimp only
  apply Keeps.trans _ (keeps_refreshDaily host _)
  apply Keeps.trans _ (untouched_followRuntime host _).keeps
  split
  · exact (keeps_pollIndexWorkerLinux host s).trans (untouched_draw host _).keeps
  · exact keeps_pollIndexWorkerLinux host s

theorem keeps_handle {event : Event} (run : s.handle host event = some t)
    (permitted : ∀ row action, performed host event s = some (row, action) →
      ¬ TrespassingAction s row action) : Keeps s t := by
  cases event with
  | idle =>
    rw [← Option.some.inj run]
    exact keeps_idle host s
  | configure width height =>
    rw [← Option.some.inj run]
    apply Keeps.trans _ (untouched_draw host _).keeps
    exact Untouched.keeps ⟨rfl, rfl, rfl, rfl⟩
  | expose count =>
    unfold handle at run
    dsimp only at run
    split at run
    · rw [← Option.some.inj run]
      exact Keeps.refl s
    · split at run
      · contradiction
      · rw [← Option.some.inj run]
        exact (untouched_draw host s).keeps
  | keyPress key =>
    obtain ⟨pressed, press, drawn⟩ := Option.map_eq_some_iff.mp run
    rw [← drawn]
    exact (keeps_keyPress host press permitted).trans (untouched_draw host pressed).keeps
  | buttonPress button x y =>
    rw [← Option.some.inj run]
    simp only [buttonPress]
    split
    · exact (untouched_wheel host _ s).keeps.trans (untouched_draw host _).keeps
    · split
      · exact Keeps.refl s
      · rename_i first
        apply Keeps.trans _ (untouched_draw host _).keeps
        apply keeps_firstButton
        intro row action hit
        apply permitted
        simp only [performed, Decidable.not_not.mp first, if_true, hit]
  | motion x y =>
    rw [← Option.some.inj run]
    exact (untouched_motion host x y s).keeps
  | buttonRelease button =>
    rw [← Option.some.inj run]
    simp only [buttonRelease]
    split
    · exact Keeps.refl s
    · rename_i released
      rcases ended : s.swipe.finish (s.width / s.uiScale) with ⟨action, swipe⟩
      dsimp only
      cases action with
      | none =>
        apply Keeps.trans _ (untouched_draw host _).keeps
        exact Untouched.keeps ⟨rfl, rfl, rfl, rfl⟩
      | some action =>
        apply Keeps.trans _ (untouched_draw host _).keeps
        have moved : Keeps s { s with swipe := swipe } := Untouched.keeps ⟨rfl, rfl, rfl, rfl⟩
        apply moved.trans
        apply keeps_performAction
        intro trespass
        apply permitted s.swipe.state.row action
        · simp only [performed, if_neg released, ended, Option.map_some]
        · exact ⟨trespass.1, trespass.2.production, trespass.2.changes, trespass.2.low, trespass.2.high⟩
  | focusOut =>
    rw [← Option.some.inj run]
    exact (untouched_closeSwipe s).keeps
  | clientMessage deletesWindow =>
    unfold handle at run
    dsimp only at run
    split at run
    · contradiction
    · rw [← Option.some.inj run]
      exact Keeps.refl s
  | other =>
    rw [← Option.some.inj run]
    exact Keeps.refl s

/-- A trespassing event ends in a state that is not exclusive. -/
theorem handle_trespass {event : Event} {row : Int} {action : ResultAction}
    (asked : performed host event s = some (row, action)) (trespass : TrespassingAction s row action) :
    ∃ t, s.handle host event = some t ∧ ¬ Exclusive t := by
  have broken := performAction_trespass host row action s trespass
  have drawn : ∀ u : UiState W σ, ¬ Exclusive u → ¬ Exclusive (u.draw host) :=
    fun u open_ => mt (untouched_draw host u).exclusive.mpr open_
  cases event with
  | keyPress key =>
    have letter : key.keysym = .letterL ∨ key.keysym = .letterI ∨ key.keysym = .letterP := by
      simp only [performed, shortcut] at asked
      cases symbol : key.keysym <;> simp [symbol] at asked ⊢
    have typed : s.keyPress host key = some (s.performAction host row action) := by
      have acts : s.typedKey host key = s.performAction host row action := by
        simp only [performed] at asked
        simp only [typedKey, asked]
      rcases letter with symbol | symbol | symbol <;>
        simp only [keyPress, controlKey, symbol, Bool.and_false, Bool.false_eq_true, if_false, acts]
    refine ⟨_, ?_, drawn _ broken⟩
    simp only [handle, typed, Option.map_some]
  | buttonPress button x y =>
    simp only [performed] at asked
    split at asked
    · rename_i first
      refine ⟨_, rfl, ?_⟩
      have acts : s.buttonPress host button x y = (s.performAction host row action).draw host := by
        simp only [buttonPress, first, firstButton, asked]
        simp
      rw [acts]
      exact drawn _ broken
    · contradiction
  | buttonRelease button =>
    simp only [performed] at asked
    split at asked
    · contradiction
    · rename_i released
      obtain ⟨ended, ending, same⟩ := Option.map_eq_some_iff.mp asked
      rcases lifted : s.swipe.finish (s.width / s.uiScale) with ⟨outcome, swipe⟩
      rw [lifted] at ending
      dsimp only at ending
      obtain ⟨rfl, rfl⟩ := Prod.mk.inj same
      refine ⟨_, rfl, ?_⟩
      have acts : s.buttonRelease host button = ({ s with swipe := swipe }.performAction host
          s.swipe.state.row ended).draw host := by
        simp only [buttonRelease, if_neg released, lifted, ending]
      rw [acts]
      apply drawn
      apply performAction_trespass
      exact ⟨trespass.1, trespass.2.production, trespass.2.changes, trespass.2.low, trespass.2.high⟩
  | idle => contradiction
  | configure width height => contradiction
  | expose count => contradiction
  | motion x y => contradiction
  | focusOut => contradiction
  | clientMessage deletesWindow => contradiction
  | other => contradiction

theorem untouched_askForRoot (fresh : Bool) (s : UiState W σ) :
    Untouched s (s.askForRoot host fresh) := by
  unfold askForRoot
  dsimp only
  split
  · apply Untouched.trans _ (untouched_refreshQuery host true _)
    exact ⟨rfl, rfl, rfl, rfl⟩
  · exact ⟨rfl, rfl, rfl, rfl⟩

theorem untouched_prepareStartupIndexRoots (s : UiState W σ) :
    Untouched s (s.prepareStartupIndexRoots host) := by
  have kept := Client.available_roots host.library s.runtime
  simp only [prepareStartupIndexRoots]
  rcases listed : s.runtime.roots host.library with ⟨⟨persisted, error⟩, runtime⟩
  rw [listed] at kept
  dsimp only
  have read : Untouched s { s with runtime := runtime } := ⟨rfl, rfl, kept, rfl⟩
  split
  · exact read
  · have asked := read.trans (untouched_askForRoot host
      (persisted.filter (host.indexRootAccessible s.world)).isEmpty _)
    split
    · exact asked.trans ⟨rfl, rfl, rfl, rfl⟩
    · exact asked

theorem untouched_loadDaily (s : UiState W σ) : Untouched s (s.loadDaily host) := by
  simp only [loadDaily]
  split <;> exact ⟨rfl, rfl, rfl, rfl⟩

theorem untouched_readStartupStatus (s : UiState W σ) : Untouched s (s.readStartupStatus host) := by
  simp only [readStartupStatus]
  rcases read : s.readStatus host with ⟨status, t⟩
  have same : Untouched s t := by
    have kept := untouched_readStatus host s
    rwa [read] at kept
  dsimp only
  have stored := same.trans (untouched_keepStatus status t)
  split
  · exact stored.trans ⟨rfl, rfl, rfl, rfl⟩
  · exact stored

theorem keeps_startStartupWorker (s : UiState W σ) : Keeps s (s.startStartupWorker host) := by
  simp only [startStartupWorker]
  cases s.startupWorkerRequest with
  | none => exact Keeps.refl s
  | some request =>
    have kept := keeps_startIndexWorkerLinux host request (lit "Startup root repair") s
    rcases started : s.startIndexWorkerLinux host request (lit "Startup root repair") with ⟨result, t⟩
    rw [started] at kept
    cases result with
    | ok u =>
      simp only [started]
      exact kept.trans (Untouched.keeps ⟨rfl, rfl, rfl, rfl⟩)
    | error e =>
      simp only [started]
      exact kept.trans (Untouched.keeps ⟨rfl, rfl, rfl, rfl⟩)

theorem exclusive_constructed (demo smoke : Bool) (w : W) :
    Exclusive (constructed host demo smoke w : UiState W σ) :=
  fun _ => ⟨fun tracked => Bool.noConfusion tracked, List.not_mem_nil⟩

theorem exclusive_startup {demo smoke : Bool} {uiScale : ℚ} {w : W}
    (started : startup host demo smoke uiScale w = some s) : Exclusive s := by
  have first := exclusive_constructed host demo smoke w
  have opened : ∀ u : UiState W σ, Exclusive u → Exclusive (u.openWindow uiScale) :=
    fun u => (Untouched.exclusive ⟨rfl, rfl, rfl, rfl⟩).mp
  unfold startup at started
  dsimp only at started
  split at started
  · rw [← Option.some.inj started]
    apply (keeps_startStartupWorker host _).2
    apply opened
    exact (untouched_refreshQuery host true _).exclusive.mp first
  · have idle : (constructed host demo smoke w : UiState W σ).indexWorker.valid = false := rfl
    have loaded := (keeps_loadRuntime host idle).2 first
    split at started
    · contradiction
    · rename_i t loads
      rw [loads] at loaded
      rw [← Option.some.inj started]
      apply (keeps_startStartupWorker host _).2
      apply opened
      apply (untouched_readStartupStatus host _).exclusive.mp
      split
      · exact loaded
      · apply (untouched_prepareStartupIndexRoots host _).exclusive.mp
        exact (untouched_loadDaily host t).exclusive.mp loaded

/-- In every run from a startup the client stays unloaded, and no call ensures its
runtime, while a worker is tracked, exactly when no event of the run changes an existing
row through the client in a state with a tracked worker. -/
theorem exclusive_run_iff {demo smoke : Bool} {uiScale : ℚ} {w : W}
    (started : startup host demo smoke uiScale w = some s) (inputs : List (W × Event)) :
    (∀ t ∈ trail (step host) s inputs, Exclusive t) ↔
      Throughout (step host) (fun t input => ¬ Trespasses host t input) s inputs := by
  apply forall_trail_iff _ _ (exclusive_startup host started)
  · intro t input u held permitted run
    have moved : Exclusive { t with world := input.1 } :=
      (Untouched.exclusive ⟨rfl, rfl, rfl, rfl⟩).mp held
    apply (keeps_handle host run _).2 moved
    intro row action asked trespass
    exact permitted ⟨row, action, asked, trespass.1, trespass.2.production, trespass.2.changes,
      trespass.2.low, trespass.2.high⟩
  · intro t input _ onward trespasses
    obtain ⟨row, action, asked, trespass⟩ := trespasses
    obtain ⟨u, run, broken⟩ := handle_trespass host asked
      ⟨trespass.1, trespass.2.production, trespass.2.changes, trespass.2.low, trespass.2.high⟩
    exact broken (onward u run)

/-- A runtime that answers every call, over one indexed root. -/
def plainLibrary : Library Unit where
  view _ := {
    lastError := []
    listExtensions := []
    search := fun _ _ _ => .ok []
    searchContent := none }
  addRoot _ s := (true, s)
  removeRoot _ s := (true, s)
  replaceRoots _ s := (true, s)
  listRoots s := (some [lit "/srv"], s)
  setIndexed _ _ s := (true, s)
  setPinned _ _ s := (true, s)
  reindexAsync s := s
  status s := (some { indexedFiles := 1 }, s)
  generation _ := 0

theorem seven_ne_zero : (7 : Nat) ≠ 0 := by decide

/-- Everything outside works, one drive is mounted and a started worker keeps running.
The square root is only asked for 1. -/
def busyHost : X11Host Unit Unit where
  library := plainLibrary
  look w := ({
    libraryPath := lit "/opt/such/librt.so"
    create := fun _ => some ()
    load := fun s => (true, s) }, w)
  zone := Zone.utc
  now _ := 1700000000
  wait _ w := (.running, w)
  launchSite w := ({ process := some ⟨7, seven_ne_zero⟩ }, w)
  persist _ w := (.ok (), w)
  dailyFile _ := .noDirectory
  indexRootAccessible _ _ := true
  indexRootCandidates _ := [⟨lit "/media/disk", lit "disk"⟩]
  steadyNow _ := 0
  sqrt q := q
  allowLeadingSwipe := false

def typed (text : String) : Unit × Event := ((), .keyPress { keysym := .other, text := lit text })

def pressed (keysym : KeySym) (mod1 : Bool) : Unit × Event :=
  ((), .keyPress { keysym := keysym, mod1 := mod1 })

/-- A rebuild is started, the drive picker opened, its first row selected and pinned. -/
def pinWhileIndexing : List (Unit × Event) :=
  [typed "//reindex", pressed .ret false, typed "//drive", pressed .down false, pressed .letterP true]

theorem busyHost_starts : (startup busyHost false false 1 ()).isSome = true := by decide +kernel

/-- Pinning a row of the drive picker loads the client beside the running worker. -/
theorem pin_on_drive_row_loads : ∃ s, startup busyHost false false 1 () = some s ∧
    ¬ ∀ t ∈ trail (step busyHost) s pinWhileIndexing, Exclusive t := by
  refine ⟨_, Option.some_get busyHost_starts |>.symm, ?_⟩
  intro held
  have reached : ((trail (step busyHost) ((startup busyHost false false 1 ()).get busyHost_starts)
      pinWhileIndexing)[5]?).map (fun t => (t.demo, t.indexWorker.valid, t.runtime.available)) =
      some (false, true, true) := by decide +kernel
  obtain ⟨t, visited, shown⟩ := Option.map_eq_some_iff.mp reached
  obtain ⟨demo, tracked, loaded⟩ : t.demo = false ∧ t.indexWorker.valid = true ∧
      t.runtime.available = true := by simpa only [Prod.mk.injEq] using shown
  have unloaded := (held t (List.mem_of_getElem? visited) demo).1 tracked
  exact Bool.noConfusion (unloaded.symm.trans loaded)

/-- A rebuild is started, the drive picker opened and its first row selected, with the worker polled in
between. -/
def browseWhileIndexing : List (Unit × Event) :=
  [typed "//reindex", pressed .ret false, ((), .idle), typed "//drive", pressed .down false]

/-- The worker is tracked from the second event on. -/
theorem browsing_run_is_exclusive : ∃ s, startup busyHost false false 1 () = some s ∧
    (∀ t ∈ trail (step busyHost) s browseWhileIndexing, Exclusive t) ∧
      ((trail (step busyHost) s browseWhileIndexing).drop 2).all (·.indexWorker.valid) = true := by
  let s := (startup busyHost false false 1 ()).get busyHost_starts
  refine ⟨s, Option.some_get busyHost_starts |>.symm, ?_, by decide +kernel⟩
  apply (exclusive_run_iff busyHost (Option.some_get busyHost_starts).symm _).mpr
  refine throughout_of_forall_mem fun t input member => ?_
  rintro ⟨row, action, asked, -⟩
  -- Alt is not down with any of the keys, so none of them acts on a row.
  simp only [browseWhileIndexing, typed, pressed, List.mem_cons, List.not_mem_nil, or_false] at member
  rcases member with rfl | rfl | rfl | rfl | rfl <;>
    simp [performed, shortcut] at asked

end UiState
end Such.X11Frontend
