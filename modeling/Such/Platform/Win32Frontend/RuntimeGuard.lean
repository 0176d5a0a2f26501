import Such.Platform.Win32Frontend

/-! When the frontend uses its runtime pointer while it is null. -/
namespace Such.Win32Frontend
open ByteText CivilTime SearchDialect QueryCommands RuntimeClient IndexWorkerLauncher Frontend
open SwipeActions DrivenMachine

namespace Gui
variable {W σ : Type} (host : Win32Host W σ) {g : Gui W σ}

/-- Whether the client there is may only read. -/
def access (g : Gui W σ) : Option Bool := g.runtime.map (·.readOnly)

theorem access_rootItems (g : Gui W σ) : (g.rootItems host).2.access = g.access := by
  simp only [rootItems, access]
  cases held : g.runtime with
  | none => exact congrArg (Option.map (·.readOnly)) held
  | some client =>
    have kept := Client.readOnly_roots host.library client
    dsimp only
    split
    · exact congrArg some kept
    · exact congrArg some kept

theorem access_showSearch (g : Gui W σ) : (g.showSearch host).access = g.access := by
  unfold showSearch
  dsimp only
  split
  · rfl
  · simp only [access]
    cases held : g.runtime with
    | none => rfl
    | some client => rfl

theorem access_showQuery (g : Gui W σ) : (g.showQuery host).access = g.access := by
  unfold showQuery
  dsimp only
  split
  · rfl
  · split
    · rfl
    · split
      · split
        · exact access_rootItems host { g with
            searchError := g.indexWorkerFailure,
            suggestions := autocomplete g.query .windows
              ((g.runtime.map (·.observed host.library)).getD fallbackExtensions) }
        · rfl
      · exact access_showSearch host _

/-- A query refresh neither takes the runtime away nor brings another one. -/
theorem access_refreshQuery (g : Gui W σ) : (g.refreshQuery host).access = g.access := by
  simp only [refreshQuery]
  split
  · rfl
  · exact access_showQuery host { g with
      query := g.searchText, inputGate := (g.inputGate.accept g.searchText).2 }

theorem isSome_access (g : Gui W σ) : g.access.isSome = g.runtime.isSome := Option.isSome_map

theorem isSome_refreshQuery (g : Gui W σ) :
    (g.refreshQuery host).runtime.isSome = g.runtime.isSome := by
  rw [← isSome_access, access_refreshQuery, isSome_access]

theorem isSome_setSearchText (text : Bytes) (g : Gui W σ) :
    (g.setSearchText host text).runtime.isSome = g.runtime.isSome := by
  unfold setSearchText refreshCommittedEditInput
  split
  · rfl
  · dsimp only
    split
    · exact isSome_refreshQuery host _
    · rfl

/-- A guarded use never fails, and the pointer stays. -/
theorem useStatus_of_isSome (present : g.runtime.isSome = true) :
    ∃ status t, g.useStatus host = some (status, t) ∧ t.runtime.isSome = true := by
  simp only [useStatus]
  cases held : g.runtime with
  | none => rw [held] at present; contradiction
  | some client => exact ⟨_, _, rfl, rfl⟩

theorem useRoots_of_isSome (present : g.runtime.isSome = true) :
    ∃ listed t, g.useRoots host = some (listed, t) ∧ t.runtime.isSome = true := by
  simp only [useRoots]
  cases held : g.runtime with
  | none => rw [held] at present; contradiction
  | some client => exact ⟨_, _, rfl, rfl⟩

theorem isSome_of_not_isNone {α : Type} {o : Option α} (guarded : ¬ o.isNone = true) :
    o.isSome = true := by
  cases o with
  | none => exact absurd rfl guarded
  | some a => rfl

theorem isSome_keepContent (status : RuntimeStatus) (g : Gui W σ) :
    (g.keepContent host status).runtime.isSome = g.runtime.isSome := by
  simp only [keepContent]
  split
  · exact isSome_refreshQuery host _
  · rfl

theorem recordDaily_runtime
    (record : (Bytes → W → Except Bytes Unit × W) → Int → DailyIndexRefresh → W →
      Except Bytes Unit × DailyIndexRefresh × W)
    (failure : Bytes → Bytes → Bytes) (g : Gui W σ) :
    (g.recordDaily host record failure).runtime = g.runtime := by
  unfold recordDaily
  split
  · dsimp only
    split <;> rfl
  · rfl

theorem paint_isSome (g : Gui W σ) : (g.paint host).isSome = true := by
  simp only [paint]
  split
  · rename_i guarded
    simp only [Bool.and_eq_true] at guarded
    obtain ⟨status, t, used, -⟩ := useStatus_of_isSome host guarded.2
    rw [used]
    rfl
  · rfl

theorem refreshDaily_isSome (status : RuntimeStatus) (present : g.runtime.isSome = true) :
    (g.refreshDaily host status).isSome = true := by
  simp only [refreshDaily]
  split
  · rfl
  · obtain ⟨listed, t, used, -⟩ := useRoots_of_isSome host present
    rw [used]
    rfl

/-- The second use behind one guard is safe because a query refresh keeps the pointer. -/
theorem followRuntime_isSome (g : Gui W σ) : (g.followRuntime host).isSome = true := by
  simp only [followRuntime]
  split
  · rfl
  · rename_i guarded
    obtain ⟨status, t, used, still⟩ := useStatus_of_isSome host (isSome_of_not_isNone guarded)
    rw [used]
    apply refreshDaily_isSome
    exact (isSome_keepContent host status t).trans still

theorem followSnapshot_isSome (g : Gui W σ) : (g.followSnapshot host).isSome = true := by
  simp only [followSnapshot]
  split
  · rfl
  · rename_i guarded
    obtain ⟨status, t, used, -⟩ := useStatus_of_isSome host (isSome_of_not_isNone guarded)
    rw [used]
    rfl

theorem timer_isSome (g : Gui W σ) : (g.timer host).isSome = true := by
  unfold timer
  dsimp only
  split
  · exact followSnapshot_isSome host _
  · exact followRuntime_isSome host _

theorem openWindow_isSome (hold : Bool) (g : Gui W σ) : (g.openWindow host hold).isSome = true := by
  simp only [openWindow]
  split
  · rfl
  · rename_i guarded
    have present : g.runtime.isSome = true := by
      apply isSome_of_not_isNone
      intro missing
      exact guarded (by rw [missing, Bool.or_true])
    obtain ⟨listed, t, used, -⟩ := useRoots_of_isSome host present
    rw [used]
    rfl

/-- The client a launched worker leaves to read from. -/
def reader : Client σ := { readOnly := true }

/-- A chosen root starts a worker, and the reader that should stand in does not load. -/
def StartsUnread (root : Bytes) (g : Gui W σ) : Prop :=
  (g.settleWorker host).1 = false ∧
    (launchWorker host (addRequest root) (g.settleWorker host).2).1 = .ok () ∧
    (reader.load host.library host.look
      (launchWorker host (addRequest root) (g.settleWorker host).2).2.world).1 ≠ .ok ()

/-- Behind a launch the pointer is the reader, when that loads. -/
theorem attachReader_isSome_iff (action : Bytes) (released : g.runtime = none) :
    (g.attachReader host action).runtime.isSome = true ↔
      (reader.load host.library host.look g.world).1 = .ok () := by
  unfold attachReader
  dsimp only
  rw [recordDaily_runtime]
  simp only [reader]
  rcases Client.load host.library host.look { readOnly := true } g.world with ⟨outcome, left⟩
  cases outcome with
  | ok u => exact ⟨fun _ => rfl, fun _ => rfl⟩
  | error e => simp only [released, Option.isSome_none, Bool.false_eq_true, reduceCtorEq]

/-- The end of `choose_and_add_index_root` needs the pointer. -/
theorem finishAdd_isSome (preserveQuery : Bool) (g : Gui W σ) :
    (g.finishAdd host preserveQuery).isSome = g.runtime.isSome := by
  have used : ∀ t : Gui W σ, t.runtime.isSome = g.runtime.isSome →
      ((t.useGeneration host).bind fun generation =>
        ({ t with runtimeGeneration := generation }.useStatus host).bind fun polled =>
          some { polled.2 with runtimeIndexing := polled.1.indexing }).isSome = g.runtime.isSome := by
    intro t same
    rw [← same]
    simp only [useGeneration, useStatus]
    cases t.runtime <;> rfl
  simp only [finishAdd]
  cases preserveQuery with
  | true => exact used { g with suggestions := [], results := [] } rfl
  | false =>
    exact used { g.setSearchText host [] with query := [], suggestions := [], results := [] }
      (isSome_setSearchText host [] g)

/-- Adding a chosen root goes wrong exactly when the reader is missing behind the launch. -/
theorem addChosenRoot_eq_none_iff (preserveQuery : Bool) (root : Bytes) (g : Gui W σ) :
    g.addChosenRoot host preserveQuery root = none ↔ StartsUnread host root g := by
  simp only [addChosenRoot, startIndexWorker, StartsUnread]
  rcases settled : g.settleWorker host with ⟨running, t⟩
  cases running with
  | true => simp only [reduceCtorEq, Bool.true_eq_false, false_and]
  | false =>
    dsimp only
    have released : (t.launchWorker host (addRequest root)).2.runtime = none := rfl
    rcases launched : t.launchWorker host (addRequest root) with ⟨result, u⟩
    rw [launched] at released
    cases result with
    | error e => simp only [reduceCtorEq, false_and, and_false]
    | ok v =>
      have attached := attachReader_isSome_iff host (lit "Folder indexing") released
      have ended := finishAdd_isSome host preserveQuery (u.attachReader host (lit "Folder indexing"))
      simp only [true_and]
      rw [← Option.isNone_iff_eq_none, ← Option.not_isSome, Bool.not_eq_true', ended]
      cases present : (u.attachReader host (lit "Folder indexing")).runtime.isSome with
      | true =>
        simp only [Bool.true_eq_false, false_iff, not_not]
        exact attached.mp present
      | false =>
        simp only [true_iff]
        intro loads
        rw [attached.mpr loads] at present
        contradiction

/-- The message resumes a folder dialog of `choose_and_add_index_root` with a root whose
worker starts without a reader. -/
def NullUse (event : Event) (g : Gui W σ) : Prop :=
  ∃ preserveQuery rest root, g.modals = .folderForAdd preserveQuery :: rest ∧
    event = .returned (some root) ∧ StartsUnread host root { g with modals := rest }

theorem resume_eq_none_iff (chosen : Option Bytes) (g : Gui W σ) :
    g.resume host chosen = none ↔ NullUse host (.returned chosen) g := by
  constructor
  · intro fails
    unfold resume at fails
    split at fails
    · contradiction
    · rename_i modal rest shown
      dsimp only at fails
      split at fails
      · rename_i preserveQuery root
        exact ⟨preserveQuery, rest, root, shown, rfl,
          (addChosenRoot_eq_none_iff host preserveQuery root _).mp fails⟩
      all_goals contradiction
  · rintro ⟨preserveQuery, rest, root, shown, same, unread⟩
    cases same
    simp only [resume]
    rw [shown]
    exact (addChosenRoot_eq_none_iff host preserveQuery root _).mpr unread

/-- Every other message is handled without a null pointer being used. -/
theorem handle_eq_none_iff (event : Event) (g : Gui W σ) :
    g.handle host event = none ↔ NullUse host event g := by
  have other : (∀ chosen, event ≠ .returned chosen) → ¬ NullUse host event g := by
    rintro different ⟨-, -, root, -, same, -⟩
    exact different _ same
  cases event with
  | returned chosen => exact resume_eq_none_iff host chosen g
  | timer =>
    refine iff_of_false ?_ (other (fun chosen same => Event.noConfusion same))
    simp only [handle]
    split
    · exact Option.some_ne_none g
    · exact Option.isSome_iff_ne_none.mp (timer_isSome host g)
  | paint =>
    refine iff_of_false ?_ (other (fun chosen same => Event.noConfusion same))
    simp only [handle]
    split
    · exact Option.some_ne_none g
    · exact Option.isSome_iff_ne_none.mp (paint_isSome host g)
  | _ =>
    refine iff_of_false ?_ (other (fun chosen same => Event.noConfusion same))
    simp only [handle]
    split
    · exact Option.some_ne_none g
    · exact Option.some_ne_none _

end Gui

namespace Process
variable {W σ : Type} (host : Win32Host W σ)

/-- No null pointer was used. -/
def Intact (p : Process W σ) : Prop := p ≠ .crashed

/-- The process uses a null pointer at this message. -/
def NullUse (p : Process W σ) (input : W × Event) : Prop :=
  ∃ g, p = .running g ∧ Gui.NullUse host input.2 { g with world := input.1 }

theorem ofOption_eq_crashed_iff (next : Option (Gui W σ)) :
    ofOption next = .crashed ↔ next = none := by
  cases next with
  | none => exact iff_of_true rfl rfl
  | some g =>
    apply iff_of_false _ (Option.some_ne_none g)
    intro same
    simp only [ofOption] at same
    contradiction

/-- One message ends in the use of a null pointer exactly when it meets `NullUse`. A window
that is gone still resumes its suspended handlers. -/
theorem step_eq_crashed_iff (p : Process W σ) (input : W × Event) :
    step host p input = some .crashed ↔ NullUse host p input := by
  cases p with
  | crashed =>
    apply iff_of_false
    · exact fun same => Option.noConfusion rfl (heq_of_eq same)
    · rintro ⟨g, same, -⟩
      contradiction
  | running g =>
    have message := Gui.handle_eq_none_iff host input.2 { g with world := input.1 }
    have shown : NullUse host (.running g) input ↔
        Gui.NullUse host input.2 { g with world := input.1 } := by
      constructor
      · rintro ⟨t, same, use⟩
        cases same
        exact use
      · exact fun use => ⟨g, rfl, use⟩
    rw [shown, ← message]
    unfold step
    dsimp only
    split
    · rename_i ended
      apply iff_of_false
      · exact fun same => Option.noConfusion rfl (heq_of_eq same)
      · intro fails
        obtain ⟨preserveQuery, rest, root, modals, -⟩ := message.mp fails
        simp only [Bool.and_eq_true, List.isEmpty_iff] at ended
        exact List.cons_ne_nil _ _ (modals.symm.trans ended.2)
    · rw [Option.some_inj]
      exact ofOption_eq_crashed_iff _

theorem intact_startup {demo smoke hold : Bool} {w : W} {p : Process W σ}
    (started : startup host demo smoke hold w = some p) : Intact p := by
  have opens : ∀ g : Gui W σ, Intact (ofOption (g.openWindow host hold)) := by
    intro g crashed
    exact Option.isSome_iff_ne_none.mp (Gui.openWindow_isSome host hold g)
      ((ofOption_eq_crashed_iff _).mp crashed)
  unfold startup at started
  dsimp only at started
  split at started
  · rw [← Option.some.inj started]
    exact opens _
  · split at started
    · contradiction
    · rw [← Option.some.inj started]
      exact opens _

/-- A run from a startup never uses the null pointer exactly when no folder dialog of
`choose_and_add_index_root` returns a root whose worker starts without a loadable reader. -/
theorem guarded_run_iff {demo smoke hold : Bool} {w : W} {p : Process W σ}
    (started : startup host demo smoke hold w = some p) (inputs : List (W × Event)) :
    (∀ q ∈ trail (step host) p inputs, Intact q) ↔
      Throughout (step host) (fun q input => ¬ NullUse host q input) p inputs := by
  apply forall_trail_iff _ _ (intact_startup host started)
  · rintro q input r - permitted steps rfl
    exact permitted ((step_eq_crashed_iff host q input).mp steps)
  · intro q input _ onward use
    exact onward .crashed ((step_eq_crashed_iff host q input).mpr use) rfl

/-- A runtime without roots that answers every call. -/
def emptyLibrary : Library Unit where
  view _ := {
    lastError := []
    listExtensions := []
    search := fun _ _ _ => .ok []
    searchContent := none }
  addRoot _ s := (true, s)
  removeRoot _ s := (true, s)
  replaceRoots _ s := (true, s)
  listRoots s := (some [], s)
  setIndexed _ _ s := (true, s)
  setPinned _ _ s := (true, s)
  reindexAsync s := s
  status s := (some {}, s)
  generation _ := 0

/-- Everything outside works, but the runtime library has no read-only entry point. -/
def writeOnlyHost : Win32Host Unit Unit where
  library := emptyLibrary
  look w := ({
    libraryPath := lit "C:\\such\\such.dll"
    createsReadonly := false
    create := fun _ => some ()
    load := fun s => (true, s) }, w)
  zone := Zone.utc
  now _ := 1700000000
  wait _ w := (.running, w)
  launchSite w := ({ process := some ⟨7, by decide⟩ }, w)
  persist _ w := (.ok (), w)
  dailyFile _ := .noDirectory
  fontInstalled _ _ := true
  saveFont _ w := (true, w)
  opensAgent _ := true
  diagnostic _ _ := none

/-- Return asks for a first root, and a folder is chosen. -/
def chooseFirstRoot : List (Unit × Event) :=
  [((), .returnKey), ((), .returned (some (lit "C:\\docs")))]

theorem writeOnlyHost_starts :
    (startup writeOnlyHost false false false ()).isSome = true := by decide +kernel

def isCrashed (p : Process W σ) : Bool :=
  match p with
  | .running _ => false
  | .crashed => true

/-- The worker of the chosen folder starts, its reader does not load, and the handler asks
the missing runtime for its generation. -/
theorem chosen_root_uses_null : ∃ p, startup writeOnlyHost false false false () = some p ∧
    ¬ ∀ q ∈ trail (step writeOnlyHost) p chooseFirstRoot, Intact q := by
  refine ⟨_, Option.some_get writeOnlyHost_starts |>.symm, ?_⟩
  intro intact
  have reached : ((trail (step writeOnlyHost)
      ((startup writeOnlyHost false false false ()).get writeOnlyHost_starts)
      chooseFirstRoot)[2]?).map isCrashed = some true := by decide +kernel
  obtain ⟨q, visited, ended⟩ := Option.map_eq_some_iff.mp reached
  apply intact q (List.mem_of_getElem? visited)
  cases q with
  | running g => exact Bool.noConfusion ended
  | crashed => rfl

/-- The same with a library that has the entry point. -/
def readableHost : Win32Host Unit Unit :=
  { writeOnlyHost with
    look := fun w => ({
      libraryPath := lit "C:\\such\\such.dll"
      create := fun _ => some ()
      load := fun s => (true, s) }, w) }

theorem readableHost_starts : (startup readableHost false false false ()).isSome = true := by
  decide +kernel

theorem not_nullUse_of_step {p : Process W σ} {input : W × Event}
    (runs : (step host p input).map isCrashed = some false) : ¬ NullUse host p input := by
  intro use
  rw [(step_eq_crashed_iff host p input).mpr use] at runs
  cases runs

/-- The worker of the chosen folder starts, and its reader is asked. -/
theorem chosen_root_is_guarded : ∃ p, startup readableHost false false false () = some p ∧
    ∀ q ∈ trail (step readableHost) p chooseFirstRoot, Intact q := by
  let p := (startup readableHost false false false ()).get readableHost_starts
  refine ⟨p, Option.some_get readableHost_starts |>.symm, ?_⟩
  apply (guarded_run_iff readableHost (Option.some_get readableHost_starts).symm _).mpr
  have asks : (step readableHost p ((), .returnKey)).map isCrashed = some false := by decide +kernel
  have chooses : ((step readableHost p ((), .returnKey)).bind fun q =>
      step readableHost q ((), .returned (some (lit "C:\\docs")))).map isCrashed = some false := by
    decide +kernel
  refine ⟨not_nullUse_of_step readableHost asks, fun q stepped => ⟨?_, fun _ _ => trivial⟩⟩
  have stepped : step readableHost p ((), .returnKey) = some q := stepped
  rw [stepped] at chooses
  exact not_nullUse_of_step readableHost chooses

end Process
end Such.Win32Frontend
