import Such.Ui.SearchDialect
import Such.Base.KeyedList
import Mathlib.Data.List.Sort

/-! What the search box suggests for the word under the cursor. -/
namespace Such.SearchDialect
open ByteText

structure Suggestion where
  token : Bytes
  label : Bytes
deriving DecidableEq, Repr

def isWordBreak (b : UInt8) : Bool := b == 32 || b == 9 || b == 10

/-- What follows the last blank of a query. -/
def lastWord (query : Bytes) : Bytes := query.rtakeWhile (!isWordBreak ·)

/-- The query without its last word. -/
def beforeLastWord (query : Bytes) : Bytes := query.rdropWhile (!isWordBreak ·)

/-- Byte order, as string comparison has it. -/
def textLess : Bytes → Bytes → Bool
  | _, [] => false
  | [], _ :: _ => true
  | a :: v, b :: w => decide (a < b) || (a == b && textLess v w)

def suggest (token label : String) : Suggestion := ⟨lit token, lit label⟩

/-- These take a single slash on every platform. -/
def universalCommands : List Suggestion := [
  suggest "/claude" "Open Claude with Such MCP",
  suggest "/codex" "Open Codex with Such MCP",
  suggest "/inside" "Search inside indexed files",
  suggest "/;" "Add detail-search branch"]

def fixedCommands : List Suggestion := [
  suggest "font" "Font settings",
  suggest "index" "Add indexed folder",
  suggest "drive" "Replace search folder",
  suggest "reindex" "Rebuild local index",
  suggest "roots" "Indexed folders",
  suggest "pin" "Pinned",
  suggest "today" "Modified today",
  suggest "yesterday" "Modified yesterday",
  suggest "week" "Last 7 days",
  suggest "month" "Last 30 days",
  suggest "year" "Last 365 days"]

/-- A command that only Windows reads behind a single slash. -/
def windowsCommand (dialect : PlatformDialect) (typed : Bytes) (command : Suggestion) :
    List Suggestion :=
  if dialect = .windows ∧ startsWith command.token typed then [command] else []

def autocomplete (query : Bytes) (dialect : PlatformDialect) (observed : List Bytes) :
    List Suggestion :=
  let tail := lastWord query
  let marker := operatorPrefix dialect
  if startsWith tail (lit "/") && !startsWith tail (lit "//") then
    let typed := lower tail
    windowsCommand dialect typed (suggest "/drive" "Choose search drive or folder") ++
      universalCommands.filter (fun command => startsWith (lower command.token) typed) ++
      windowsCommand dialect typed (suggest "/index" "Rebuild index for current folders")
  else if !startsWith tail marker then []
  else
    let needle := lower (tail.drop marker.length)
    let fixed := (fixedCommands.filter fun command => startsWith (lower command.token) needle).map
      fun command => { command with token := marker ++ command.token }
    let extensions := ((KeyedList.uniqueBy id (observed.filterMap observedExtension)).filter
      (startsWith · needle)).map fun ext => Suggestion.mk (marker ++ ext) (46 :: ext ++ lit " files")
    ((fixed ++ extensions).insertionSort fun a b => textLess b.token a.token = false).take 8

example : (autocomplete (lit "plan //re") .unixLike [lit "REQ", lit ".req"]).map (·.token) =
    [lit "//reindex", lit "//req"] := by decide +kernel

end Such.SearchDialect
