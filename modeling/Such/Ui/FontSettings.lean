import Such.Base.FileSystem
import Such.Ui.QueryCommands

/-! The font preference that the command line and the frontends share: where it is kept, what is
written there and what is read back. -/
namespace Such.FontSettings
open ByteText FileSystem

inductive PosixSystem where
  | linux
  | apple
deriving DecidableEq, Repr

/-- Where a user's settings are looked for. Variables are C strings. -/
structure SettingsEnvironment where
  system : PosixSystem := .linux
  configHome : Option Bytes := none
  home : Option Bytes := none
  temporaryDirectory : Bytes
deriving DecidableEq, Repr

def settingsPath (env : SettingsEnvironment) : Bytes :=
  let under (directory : Bytes) (names : List Bytes) : Bytes := names.foldl append directory
  let fallback := append env.temporaryDirectory (lit "heritage-such-settings.ini")
  match env.system with
  | .apple =>
    match env.home with
    | some home => under home
        [lit "Library", lit "Application Support", lit "Heritage", lit "Such", lit "settings.ini"]
    | none => fallback
  | .linux =>
    match env.configHome, env.home with
    | some xdg, _ => under xdg [lit "such", lit "settings.ini"]
    | none, some home => under home [lit ".config", lit "such", lit "settings.ini"]
    | none, none => fallback

/-- The first line that gives a font. An empty last line behind the final newline gives none. -/
def loadFontPreference (disk : Disk) (path : Bytes) : Option Bytes := do
  let text ← openRead disk path
  let line ← (text.splitOn 10).find? (startsWith · (lit "font="))
  return line.drop 5

/-- What can go wrong while the preference is written. The text goes to the disk when the stream is
closed, and what is lost then is not noticed. -/
inductive SaveFault where
  | createDirectories
  | openSettings
  | write (reached : Nat)
  | close (reached : Nat)
deriving DecidableEq, Repr

/-- `systemMessage` is the text of a refused `create_directories`. -/
def saveFontPreference (fault : Option SaveFault) (systemMessage path family : Bytes) (disk : Disk) :
    Except Bytes Unit × Disk :=
  match if fault = some .createDirectories then none
    else createDirectories (parentPath path) disk with
  | none => (.error systemMessage, disk)
  | some disk =>
    match if fault = some .openSettings then none else openWrite disk path with
    | none => (.error (lit "could not open settings file"), disk)
    | some l =>
      let text := lit "font=" ++ family ++ [10]
      match fault with
      | some (.write reached) => (.error [], put l (.file (text.take reached)) disk)
      | some (.close reached) => (.ok (), put l (.file (text.take reached)) disk)
      | _ => (.ok (), put l (.file text) disk)

def clearFontPreference (fault : Option SaveFault) (systemMessage path : Bytes) (disk : Disk) :
    Except Bytes Unit × Disk := saveFontPreference fault systemMessage path [] disk

/-- Clearing the preference is saving the empty family. -/
theorem clear_or_save (fault : Option SaveFault) (systemMessage path family : Bytes) (disk : Disk) :
    (if family.isEmpty then clearFontPreference fault systemMessage path disk
      else saveFontPreference fault systemMessage path family disk) =
        saveFontPreference fault systemMessage path family disk := by
  split
  · rename_i empty
    rw [clearFontPreference, List.isEmpty_iff.1 empty]
  · rfl

end Such.FontSettings
