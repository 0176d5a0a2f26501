import Such.Base.FileSystem.Places
import Such.Base.FileSystem.Staging
import Such.Cli.CliApp.Snapshots

/-! The font an interactive session leaves behind: the settings file is read back as the last choice
of the session, whatever else was typed. -/
namespace Such.FontSettings
open ByteText FileSystem

section Storage
variable {disk : Disk} {path : Bytes} {d : Loc} {n : Name}

/-- A family is read back up to the end of its line. -/
def firstLine (family : Bytes) : Bytes := family.takeWhile (· != 10)

/-- A disk on which the settings at `d ++ [n]` can be written. -/
structure Writable (d : Loc) (n : Name) (disk : Disk) : Prop where
  way : NoFileOnWay [] d disk
  free : get disk (d ++ [n]) ≠ some .dir

/-- The disk with the settings in place. -/
def settled (d : Loc) (n : Name) (family : Bytes) (disk : Disk) : Disk :=
  put (d ++ [n]) (.file (lit "font=" ++ family ++ [10])) (makeDirs [] d disk)

theorem save_writes (plain : Plain path (d ++ [n])) (parent : parentPath path ≠ [])
    (writable : Writable d n disk) (message family : Bytes) :
    saveFontPreference none message path family disk = (.ok (), settled d n family disk) := by
  have clear : 0 ∉ parentPath path := fun member => plain.clear (by
    rw [← stem_append_filename path]
    exact List.mem_append_left _ ((prefix_parentPath path).subset member))
  have whole : cstr (parentPath path) = parentPath path := cstr_of_notMem clear
  have made : createDirectories (parentPath path) disk = some (makeDirs [] d disk) := by
    have parts : components (cstr (parentPath path)) = d.map Name.bytes ++ [] := by
      rw [whole, plain.parent, List.append_nil]
    refine (createDirectories_eq_some (by rwa [whole]) parts (by simp)).mpr ?_
    simpa using writable.way
  have opened : openWrite (makeDirs [] d disk) path = some (d ++ [n]) := by
    refine openWrite_eq_some.mpr ⟨n, ?_, ?_, plain.locate.symm, ?_, ?_⟩
    · rw [plain.cstr_eq, plain.split.2, Name.ofBytes?_bytes]
    · rw [plain.cstr_eq, plain.split.1, foldl_enter_names, List.nil_append]
    · rw [List.dropLast_concat]
      exact get_makeDirs_above writable.way (List.prefix_refl _)
    · rw [get_makeDirs, if_neg]
      · exact writable.free
      · rintro ⟨-, -, -, below⟩
        exact sibling_not_above_parent below
  simp only [saveFontPreference, reduceCtorEq, if_false, made, opened, settled]

/-- The settings stay writable. -/
theorem settled_writable (writable : Writable d n disk) (family : Bytes) :
    Writable d n (settled d n family disk) := by
  have below : d ++ [n] ≠ [] := by simp
  constructor
  · rintro q ⟨above, filled, onWay⟩ content file
    have apart : q ≠ d ++ [n] := by
      rintro rfl
      exact sibling_not_above_parent onWay
    rw [settled, get_put _ below, if_neg apart, get_makeDirs_above writable.way onWay] at file
    cases file
  · rw [settled, get_put _ below, if_pos rfl]
    simp

theorem load_settled (plain : Plain path (d ++ [n])) (family : Bytes) :
    loadFontPreference (settled d n family disk) path = some (firstLine family) := by
  have read : openRead (settled d n family disk) path = some (lit "font=" ++ family ++ [10]) := by
    rw [openRead, plain.filled, plain.locate, settled, get_put _ (by simp), if_pos rfl]
    simp [plain.cstr_eq, plain.named]
  have free : 10 ∉ lit "font=" ++ firstLine family := by
    have own : 10 ∉ firstLine family := fun member => by
      simpa using List.mem_takeWhile_imp member
    rw [List.mem_append, not_or]
    exact ⟨by decide, own⟩
  obtain ⟨rest, text⟩ : ∃ rest, lit "font=" ++ family ++ [10] =
      (lit "font=" ++ firstLine family) ++ 10 :: rest := by
    have parts : firstLine family ++ family.dropWhile (· != 10) = family :=
      List.takeWhile_append_dropWhile
    cases later : family.dropWhile (· != 10) with
    | nil =>
      rw [later, List.append_nil] at parts
      exact ⟨[], by rw [parts]⟩
    | cons b rest =>
      have stop : b = 10 := by
        have := List.head_dropWhile_not (· != 10) (l := family) (by simp [later])
        simpa [later] using this
      refine ⟨rest ++ [10], ?_⟩
      rw [later, stop] at parts
      calc lit "font=" ++ family ++ [10]
          = lit "font=" ++ (firstLine family ++ 10 :: rest) ++ [10] := by rw [parts]
        _ = lit "font=" ++ firstLine family ++ 10 :: (rest ++ [10]) := by simp
  have starts : startsWith (lit "font=" ++ firstLine family) (lit "font=") = true := by
    simp [startsWith]
  simp only [loadFontPreference, read, text, Option.bind_eq_bind, Option.bind_some,
    List.splitOn_append_cons_self_of_not_mem free, List.find?_cons, starts]
  rfl

end Storage
end Such.FontSettings

namespace Such.CliApp
open ByteText FileSystem SearchDialect QueryCommands FontSettings
open RuntimeClient IndexRootService IndexWorkerLauncher IndexWorker IndexSnapshot ProcessControl

/-- Names that are looked at before the font commands. -/
def earlierCommands : List Bytes :=
  ["--index-worker", "help", "--help", "-h", "version", "--version", "-v", "stop", "shutdown",
    "--shutdown"].map lit

/-- The family that `font` is followed by. -/
def namedFamily (requested : Bytes) : Option Bytes :=
  if lower requested = lit "system" then some []
  else (builtinFontOptions.find? fun option =>
    lower option.aliasName == lower requested || lower option.family == lower requested).map (·.family)

/-- The family that a command saves. The search box's spelling is understood too. -/
def chosenFamily (dialect : PlatformDialect) (firstRaw : Bytes) (arguments : List Bytes) :
    Option Bytes :=
  if lower firstRaw ∈ earlierCommands then none
  else if lower firstRaw = lit "font" then
    if arguments.isEmpty then none else namedFamily (joinArgs arguments 0)
  else (parseFontCommand (joinArgs (firstRaw :: arguments) 0) dialect).requestedFamily

/-- A typed line as the command and the arguments that are run. -/
def typedCommand (typed : Bytes) : Option (Bytes × List Bytes) :=
  match splitInteractiveCommand typed with
  | [] => none
  | command :: arguments => some (cstr command, arguments.map cstr)

def typedChoice (dialect : PlatformDialect) (typed : Bytes) : Option Bytes :=
  (typedCommand typed).bind fun command => chosenFamily dialect command.1 command.2

/-- The line ends the session. -/
def ends (typed : Bytes) : Bool :=
  (splitInteractiveCommand typed).head?.any fun command => lower command ∈ [lit "exit", lit "quit"]

/-- The families that a session saves, in order. -/
def choices (dialect : PlatformDialect) (typed : List Bytes) : List Bytes :=
  (typed.takeWhile fun line => !ends line).filterMap (typedChoice dialect)

section Choices
variable {dialect : PlatformDialect} {line command : Bytes} {rest arguments : List Bytes}

theorem choices_blank (blank : splitInteractiveCommand line = []) :
    choices dialect (line :: rest) = choices dialect rest := by
  simp [choices, typedChoice, typedCommand, ends, blank]

theorem choices_leaving (split : splitInteractiveCommand line = command :: arguments)
    (leaving : lower command ∈ [lit "exit", lit "quit"]) : choices dialect (line :: rest) = [] := by
  have past : ends line = true := by
    rw [ends, split]
    exact decide_eq_true leaving
  simp [choices, past]

theorem choices_cons (split : splitInteractiveCommand line = command :: arguments)
    (stays : lower command ∉ [lit "exit", lit "quit"]) : choices dialect (line :: rest) =
      (chosenFamily dialect (cstr command) (arguments.map cstr)).toList ++ choices dialect rest := by
  have open_ : ends line = false := by
    rw [ends, split]
    exact decide_eq_false stays
  have typed : typedChoice dialect line =
      chosenFamily dialect (cstr command) (arguments.map cstr) := by
    simp [typedChoice, typedCommand, split]
  rw [choices, List.takeWhile_cons, if_pos (by simp [open_]), List.filterMap_cons, typed]
  cases chosenFamily dialect (cstr command) (arguments.map cstr) <;> rfl

end Choices

section Fonts
variable {W σ : Type} {host : CliHost W σ} {resolve : Bytes → Loc} {path : Bytes} {d : Loc} {n : Name}
  {w : W}

/-- The settings of a later disk are those of an earlier one. -/
structure SameSettings (path : Bytes) (d : Loc) (n : Name) (disk disk' : Disk) : Prop where
  preference : loadFontPreference disk' path = loadFontPreference disk path
  writable : Writable d n disk → Writable d n disk'

theorem SameSettings.refl (disk : Disk) : SameSettings path d n disk disk := ⟨rfl, id⟩

theorem SameSettings.trans {a b c : Disk} (first : SameSettings path d n a b)
    (second : SameSettings path d n b c) : SameSettings path d n a c :=
  ⟨second.preference.trans first.preference, second.writable ∘ first.writable⟩

/-- Nothing but the node at the place is different. -/
def ChangedAt (place : Loc) (disk disk' : Disk) : Prop := ∀ p, p ≠ place → get disk' p = get disk p

theorem ChangedAt.sameSettings {disk disk' : Disk} {place : Loc} (changed : ChangedAt place disk disk')
    (plain : Plain path (d ++ [n])) (apart : ¬ place <+: d ++ [n]) :
    SameSettings path d n disk disk' := by
  have kept : ∀ {q}, q <+: d ++ [n] → get disk' q = get disk q := by
    intro q below
    exact changed q fun same => apart (same ▸ below)
  refine ⟨?_, fun writable => ⟨fun q onWay => ?_, ?_⟩⟩
  · simp only [loadFontPreference, openRead, plain.locate, kept (List.prefix_refl _)]
  · rw [kept (onWay.2.2.trans (List.prefix_append _ _))]
    exact writable.way q onWay
  · rw [kept (List.prefix_refl _)]
    exact writable.free

/-- Opening a file of the disk and writing to it change nothing else. -/
theorem openTruncOn_changedAt {disk : W → Disk} {setDisk : Disk → W → W}
    (disk_setDisk : ∀ held w, disk (setDisk held w) = held) {opened : Bytes} {stream : Stream W}
    {w w' : W} (found : openTruncOn disk setDisk opened w = some (stream, w')) :
    ChangedAt (locate opened) (disk w) (disk w') ∧
      ∀ text v, ChangedAt (locate opened) (disk v) (disk (stream.write text v)) := by
  obtain ⟨place, writes, made⟩ := Option.map_eq_some_iff.1 found
  obtain ⟨name, -, last, rfl, -⟩ := openWrite_eq_some.1 writes
  have below : locate opened ≠ [] := by simp [last]
  have put_apart : ∀ node held, ChangedAt (locate opened) held (put (locate opened) node held) := by
    intro node held p other
    rw [get_put _ below, if_neg other]
  cases made
  refine ⟨?_, fun text v => ?_⟩
  · rw [disk_setDisk]
    exact put_apart _ _
  · dsimp only
    split
    · rw [disk_setDisk]
      exact put_apart _ _
    · exact fun _ _ => rfl

/-- A world in which the settings can be written, and are by nothing but the font commands, the
snapshots and the diagnostic files. Those are opened where the system resolves their paths, which may
start from its working directory. -/
structure Undisturbed (host : CliHost W σ) (resolve : Bytes → Loc) (path : Bytes) (d : Loc) (n : Name) :
    Prop where
  path_eq : settingsPath host.settings = path
  plain : Plain path (d ++ [n])
  parent : parentPath path ≠ []
  disk_setDisk : ∀ disk w, host.disk (host.setDisk disk w) = disk
  calm : ∀ w, host.saveFault w = none
  opens : ∀ {opened stream w w'}, host.openTrunc opened w = some (stream, w') →
    ChangedAt (resolve opened) (host.disk w) (host.disk w') ∧
      ∀ text v, ChangedAt (resolve opened) (host.disk v) (host.disk (stream.write text v))
  look : ∀ w, SameSettings path d n (host.disk w) (host.disk (host.look w).2)
  stops : ∀ force w, SameSettings path d n (host.disk w)
    (host.disk (host.processes.stopSuchProcesses force w).2)
  persist : ∀ bytes w, SameSettings path d n (host.disk w) (host.disk (host.persist bytes w).2)
  destroy : ∀ runtime w, SameSettings path d n (host.disk w) (host.disk (host.destroy runtime w))

variable (undisturbed : Undisturbed host resolve path d n)
include undisturbed

theorem ensureReady_settings (w : W) : SameSettings path d n (host.disk w)
    (host.disk (({} : Client σ).ensureReady host.library host.look w).2) := by
  have looked := undisturbed.look w
  simp only [Client.ensureReady]
  split
  · exact looked
  · split <;> exact looked

theorem destroyed_settings (ended : CliEnd σ) (w : W) :
    SameSettings path d n (host.disk w) (host.disk (destroyed host ended w).2) := by
  simp only [destroyed]
  split
  · exact .refl _
  · exact undisturbed.destroy _ w

theorem recordScan_settings (w : W) :
    SameSettings path d n (host.disk w) (host.disk (recordScan host w).2) := by
  have recorded : ∀ now r, SameSettings path d n (host.disk w)
      (host.disk (DailyIndexRefresh.recordSuccess host.persist now r w).2.2) := by
    intro now r
    simp only [DailyIndexRefresh.recordSuccess, DailyIndexRefresh.record]
    split
    · exact .refl _
    · exact undisturbed.persist _ w
  simp only [recordScan]
  split
  · exact .refl _
  · rename_i daily _
    have kept := recorded (host.now w) daily
    split <;> rename_i saved <;> rw [saved] at kept <;> exact kept

theorem scan_settings (s : Service σ) (w : W) :
    SameSettings path d n (host.disk w) (host.disk (scan host s w).2) := by
  simp only [scan]
  split
  · exact .refl _
  · split
    · exact .refl _
    · exact recordScan_settings undisturbed w

theorem runOverRuntime_settings (argv : List Bytes) (first : Bytes) (s : Service σ) (w : W) :
    SameSettings path d n (host.disk w) (host.disk (runOverRuntime host argv first s w).2) := by
  simp only [runOverRuntime]
  split_ifs <;> first | exact scan_settings undisturbed s w | exact .refl _

theorem openDiagnostic_settings {options : WorkerOptions}
    (apart : options.diagnosticPath ≠ [] → ¬ resolve options.diagnosticPath <+: d ++ [n]) (w : W) :
    SameSettings path d n (host.disk w)
        (host.disk (openDiagnostic host.toWorkerHost options w).2) ∧
      ∀ stream ∈ (openDiagnostic host.toWorkerHost options w).1, ∀ text v,
        SameSettings path d n (host.disk v) (host.disk (stream.write text v)) := by
  simp only [openDiagnostic]
  split
  · exact ⟨.refl _, by simp⟩
  · rename_i named
    have away := apart (by simpa using named)
    split
    · exact ⟨.refl _, by simp⟩
    · rename_i diagnostic v found
      obtain ⟨emptied, written⟩ := undisturbed.opens found
      refine ⟨emptied.sameSettings undisturbed.plain away, ?_⟩
      rintro stream ⟨⟩ text v
      exact (written text v).sameSettings undisturbed.plain away

omit undisturbed in
theorem fail_settings {diagnostic : Option (Stream W)} (written : ∀ stream ∈ diagnostic, ∀ text v,
      SameSettings path d n (host.disk v) (host.disk (stream.write text v))) (code : Int)
    (message : Bytes) (service : Option (Service σ)) (w : W) : SameSettings path d n (host.disk w)
      (host.disk (fail diagnostic code message service w).2) := by
  cases diagnostic with
  | none => exact .refl _
  | some stream => exact written stream rfl _ w

omit undisturbed in
theorem carryOut_settings {diagnostic : Option (Stream W)} (written : ∀ stream ∈ diagnostic, ∀ text v,
      SameSettings path d n (host.disk v) (host.disk (stream.write text v)))
    (operation : IndexWorkerOperation) (roots : List Bytes) (s : Service σ) (w : W) :
    SameSettings path d n (host.disk w)
      (host.disk (carryOut host.toWorkerHost operation roots diagnostic s w).2) := by
  simp only [carryOut, finish]
  split
  · exact fail_settings written ..
  · split_ifs <;> first | exact fail_settings written .. | exact .refl _

/-- The diagnostic file that a worker's arguments name is neither the settings nor stands in the place
of one of their folders. -/
def DiagnosticApart (resolve : Bytes → Loc) (d : Loc) (n : Name) (argv : List Bytes) : Prop :=
  ∀ operation options, readWorker argv = .ok (operation, options) → options.diagnosticPath ≠ [] →
    ¬ resolve options.diagnosticPath <+: d ++ [n]

theorem indexWorker_settings {argv : List Bytes} (apart : DiagnosticApart resolve d n argv) (w : W) :
    SameSettings path d n (host.disk w) (host.disk (indexWorker host argv w).2) := by
  simp only [indexWorker]
  refine .trans ?_ (destroyed_settings undisturbed _ _)
  simp only [runIndexWorker]
  split
  · exact .refl _
  rename_i operation options read
  have opened := openDiagnostic_settings undisturbed (apart operation options read) w
  generalize openDiagnostic host.toWorkerHost options w = outcome at opened
  obtain ⟨diagnostic, v⟩ := outcome
  obtain ⟨emptied, written⟩ := opened
  have ready := ensureReady_settings undisturbed v
  dsimp only at emptied ⊢
  refine emptied.trans ?_
  split <;> rename_i found u loaded <;> rw [loaded] at ready
  · exact ready.trans (fail_settings written ..)
  · exact ready.trans (carryOut_settings written ..)

theorem stop_settings (arguments : List Bytes) (w : W) :
    SameSettings path d n (host.disk w) (host.disk (stop host arguments w).2) := by
  have stopped := undisturbed.stops (!arguments.isEmpty) w
  simp only [stop]
  split
  · exact .refl _
  · split
    · exact stopped
    · split <;> exact stopped

/-- The settings after a command that chooses this family, or nothing. -/
def Chooses (path : Bytes) (d : Loc) (n : Name) (choice : Option Bytes) (disk disk' : Disk) : Prop :=
  Writable d n disk' ∧
    loadFontPreference disk' path = (choice.map firstLine).or (loadFontPreference disk path)

omit undisturbed in
theorem SameSettings.chooses {disk disk' : Disk} (same : SameSettings path d n disk disk')
    (writable : Writable d n disk) : Chooses path d n none disk disk' :=
  ⟨same.writable writable, same.preference⟩

variable (writable : Writable d n (host.disk w))
include writable

theorem saveFont_chooses (family : Bytes) :
    Chooses path d n (some family) (host.disk w) (host.disk (saveFont host family w).2) := by
  have saved : saveFontPreference (host.saveFault w) (host.systemMessage w)
      (settingsPath host.settings) family (host.disk w) =
        (.ok (), settled d n family (host.disk w)) := by
    rw [undisturbed.calm, undisturbed.path_eq]
    exact save_writes undisturbed.plain undisturbed.parent writable _ family
  simp only [saveFont, clear_or_save]
  simp only [saved, undisturbed.disk_setDisk]
  exact ⟨settled_writable writable family, load_settled undisturbed.plain family⟩

theorem font_chooses (executable firstRaw : Bytes) (arguments : List Bytes) :
    Chooses path d n (if arguments.isEmpty then none else namedFamily (joinArgs arguments 0))
      (host.disk w) (host.disk (font host (executable :: firstRaw :: arguments) w).2) := by
  cases arguments with
  | nil => exact (SameSettings.refl _).chooses writable
  | cons name rest =>
    have requested : joinArgs (executable :: firstRaw :: name :: rest) 2 =
        joinArgs (name :: rest) 0 := rfl
    have several : (executable :: firstRaw :: name :: rest).length ≠ 2 := by simp
    simp only [font, requested, namedFamily, List.isEmpty_cons, if_neg several, Bool.false_eq_true,
      if_false]
    split
    · exact saveFont_chooses undisturbed writable []
    · split <;> rename_i found
      · rw [found]
        exact saveFont_chooses undisturbed writable _
      · rw [found]
        exact (SameSettings.refl _).chooses writable

theorem legacyFont_chooses (raw : Bytes) :
    (legacyFont host raw w).elim ((parseFontCommand raw host.dialect).requestedFamily = none)
      fun ended => Chooses path d n (parseFontCommand raw host.dialect).requestedFamily (host.disk w)
        (host.disk ended.2) := by
  simp only [legacyFont, parseFontCommand]
  split_ifs <;> first
    | exact (SameSettings.refl _).chooses writable
    | exact saveFont_chooses undisturbed writable _
    | simp_all

/-- A command other than a snapshot changes the settings as it chooses. -/
theorem runCommand_chooses (executable firstRaw : Bytes) (arguments : List Bytes)
    (other : lower firstRaw ≠ lit "snapshot")
    (apart : lower firstRaw = lit "--index-worker" →
      DiagnosticApart resolve d n (executable :: firstRaw :: arguments)) :
    Chooses path d n (chosenFamily host.dialect firstRaw arguments) (host.disk w)
      (host.disk (runCommand host (executable :: firstRaw :: arguments) firstRaw arguments w).2) := by
  have none_of : lower firstRaw ∈ earlierCommands →
      chosenFamily host.dialect firstRaw arguments = none := fun member => if_pos member
  have earlier : lower firstRaw ∈ earlierCommands ↔ lower firstRaw = lit "--index-worker" ∨
      lower firstRaw ∈ [lit "help", lit "--help", lit "-h"] ∨
      lower firstRaw ∈ [lit "version", lit "--version", lit "-v"] ∨
      lower firstRaw ∈ [lit "stop", lit "shutdown", lit "--shutdown"] := by
    simp only [earlierCommands, List.map_cons, List.map_nil, List.mem_cons, List.not_mem_nil, or_false,
      or_assoc]
  rw [earlier] at none_of
  simp only [runCommand]
  by_cases working : lower firstRaw = lit "--index-worker"
  · rw [if_pos working, none_of (.inl working)]
    exact (indexWorker_settings undisturbed (apart working) w).chooses writable
  rw [if_neg working]
  by_cases helping : lower firstRaw ∈ [lit "help", lit "--help", lit "-h"]
  · rw [if_pos helping, none_of (.inr (.inl helping))]
    exact (SameSettings.refl _).chooses writable
  rw [if_neg helping]
  by_cases telling : lower firstRaw ∈ [lit "version", lit "--version", lit "-v"]
  · rw [if_pos telling, none_of (.inr (.inr (.inl telling)))]
    exact (SameSettings.refl _).chooses writable
  rw [if_neg telling]
  by_cases stopping : lower firstRaw ∈ [lit "stop", lit "shutdown", lit "--shutdown"]
  · rw [if_pos stopping, none_of (.inr (.inr (.inr stopping)))]
    exact (stop_settings undisturbed arguments w).chooses writable
  rw [if_neg stopping, chosenFamily, if_neg (by simp only [earlier, not_or]; tauto)]
  by_cases choosing : lower firstRaw = lit "font"
  · rw [if_pos choosing, if_pos choosing]
    exact font_chooses undisturbed writable executable firstRaw arguments
  rw [if_neg choosing, if_neg choosing]
  have whole : joinArgs (executable :: firstRaw :: arguments) 1 =
      joinArgs (firstRaw :: arguments) 0 := rfl
  have typed := legacyFont_chooses undisturbed writable (joinArgs (firstRaw :: arguments) 0)
  rw [whole]
  cases legacy : legacyFont host (joinArgs (firstRaw :: arguments) 0) w with
  | some ended =>
    rw [legacy] at typed
    exact typed
  | none =>
    rw [legacy] at typed
    dsimp only [Option.elim_none] at typed ⊢
    rw [typed, if_neg other]
    have ready := ensureReady_settings undisturbed w
    split <;> rename_i opened <;> rw [opened] at ready
    · exact ready.chooses writable
    · exact ((ready.trans (runOverRuntime_settings undisturbed _ _ _ _)).trans
        (destroyed_settings undisturbed _ _)).chooses writable

omit undisturbed writable in
theorem Chooses.trans {first second : Option Bytes} {a b c : Disk} (one : Chooses path d n first a b)
    (two : Chooses path d n second b c) : Chooses path d n (second.or first) a c := by
  refine ⟨two.1, ?_⟩
  rw [two.2, one.2]
  cases second <;> rfl

/-- A line that is neither a snapshot command nor a worker with its diagnostics in the settings' way. -/
def Harmless (resolve : Bytes → Loc) (d : Loc) (n : Name) (line : Bytes) : Prop :=
  ∀ command ∈ typedCommand line, lower command.1 ≠ lit "snapshot" ∧
    (lower command.1 = lit "--index-worker" →
      DiagnosticApart resolve d n (lit "SuchCLI" :: command.1 :: command.2))

/-- Every line is a command of its own, and the later choice counts. -/
theorem runInteractive_chooses {typed : List Bytes} (other : ∀ line ∈ typed, Harmless resolve d n line) :
    Chooses path d n (choices host.dialect typed).getLast? (host.disk w)
      (host.disk (runInteractive host typed w).2) := by
  induction typed generalizing w with
  | nil => exact (SameSettings.refl _).chooses writable
  | cons line rest ih =>
    have later := fun v (ready : Writable d n (host.disk v)) =>
      ih ready fun line member => other line (List.mem_cons_of_mem _ member)
    have own := other line List.mem_cons_self
    simp only [runInteractive]
    cases split : splitInteractiveCommand line with
    | nil =>
      rw [choices_blank split]
      exact later w writable
    | cons command arguments =>
      dsimp only
      by_cases leaving : lower command ∈ [lit "exit", lit "quit"]
      · rw [if_pos leaving, choices_leaving split leaving]
        exact (SameSettings.refl _).chooses writable
      · obtain ⟨unsnapped, apart⟩ :=
          own (cstr command, arguments.map cstr) (by simp [typedCommand, split])
        have chosen := runCommand_chooses undisturbed writable (lit "SuchCLI") (cstr command)
          (arguments.map cstr) unsnapped apart
        rw [if_neg leaving, choices_cons split leaving, List.getLast?_append]
        have both := chosen.trans (later _ chosen.1)
        cases known : chosenFamily host.dialect (cstr command) (arguments.map cstr) <;>
          rw [known] at both <;> exact both

/-- After a session of harmless lines the settings hold the last family that was chosen, and the old
one if there was none: what was typed in between makes no difference. -/
theorem last_font_is_loaded (executable : Bytes) (terminal : host.stdinIsTerminal = true)
    (other : ∀ line ∈ host.typedLines, Harmless resolve d n line) :
    loadFontPreference (host.disk (run host [executable] w).2) path =
      ((choices host.dialect host.typedLines).getLast?.map firstLine).or
        (loadFontPreference (host.disk w) path) := by
  have whole : (run host [executable] w).2 = (runInteractive host host.typedLines w).2 := by
    simp only [run, terminal, if_true]
  rw [whole]
  exact (runInteractive_chooses undisturbed writable other).2

end Fonts

/-- A session that chooses two fonts, the second one in the search box's spelling, with a worker in
between that writes its diagnostics beside the settings. -/
def typingCli : CliHost Disk IndexRootService.Abi :=
  { storedCli with
    stdinIsTerminal := true
    typedLines := ["font Google", "--index-worker reindex --diagnostic=2F632F737563682F77", "status", "",
      "font ghost", "//font gowun", "EXIT", "font system"].map lit
    settings := { configHome := some (lit "/c"), temporaryDirectory := lit "/tmp" } }

theorem typingCli_undisturbed : Undisturbed typingCli locate (lit "/c/such/settings.ini")
    [⟨lit "c", by decide⟩, ⟨lit "such", by decide⟩] ⟨lit "settings.ini", by decide⟩ where
  path_eq := by decide +kernel
  plain := ⟨by decide, by decide +kernel, by decide +kernel⟩
  parent := by decide +kernel
  disk_setDisk _ _ := rfl
  calm _ := rfl
  opens found := openTruncOn_changedAt storedCli_remembers.disk_setDisk found
  look _ := .refl _
  stops _ _ := .refl _
  persist _ _ := .refl _
  destroy _ _ := .refl _

theorem second_font_is_loaded : loadFontPreference (run typingCli [lit "such"] []).2
    (lit "/c/such/settings.ini") = some (lit "Gowun Batang") := by
  have writable : Writable [⟨lit "c", by decide⟩, ⟨lit "such", by decide⟩]
      ⟨lit "settings.ini", by decide⟩ [] := by
    refine ⟨fun q _ content file => ?_, by decide⟩
    simp only [FileSystem.get, List.lookup_nil] at file
    split at file <;> cases file
  have lines : ∀ line ∈ typingCli.typedLines, Harmless locate
      [⟨lit "c", by decide⟩, ⟨lit "such", by decide⟩] ⟨lit "settings.ini", by decide⟩ line := by
    have kinds : ∀ line ∈ typingCli.typedLines, ∀ command ∈ typedCommand line,
        lower command.1 ≠ lit "snapshot" ∧ (lower command.1 = lit "--index-worker" →
          (readWorker (lit "SuchCLI" :: command.1 :: command.2)).toOption.map (·.2.diagnosticPath) =
            some (lit "/c/such/w")) := by decide +kernel
    intro line typed command split
    obtain ⟨unsnapped, works⟩ := kinds line typed command split
    refine ⟨unsnapped, fun working operation options read _ => ?_⟩
    have named := works working
    rw [read] at named
    have same : options.diagnosticPath = lit "/c/such/w" := Option.some.inj named
    rw [same]
    decide +kernel
  have loaded := last_font_is_loaded typingCli_undisturbed writable (lit "such") rfl lines
  have chosen : choices typingCli.dialect typingCli.typedLines =
      [lit "Google Sans Flex", lit "Gowun Batang"] := by decide +kernel
  rw [chosen] at loaded
  exact loaded

end Such.CliApp
