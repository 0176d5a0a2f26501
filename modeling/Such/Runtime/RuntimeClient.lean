import Such.Ui.SearchDialect
import Such.Ui.HangulQueryNfc
import Such.Runtime.SearchableFiles

/-! The client side of the private runtime's search entry points: the runtime query,
the local filter behind it, and the staged plan of a content query. The runtime
itself is a record of the functions its library exports. -/
namespace Such.RuntimeClient
open ByteText CivilTime SearchDialect SearchableFiles HangulQueryNfc

/-- A file-search row as the callback receives it; a null string is `none`. -/
structure AbiResult where
  fileId : UInt64
  filename : Option Bytes
  path : Option Bytes
  extension : Option Bytes
  pinned : Int
  indexed : Int
  authorized : Int
  modifiedUnixSeconds : Int
  sizeBytes : UInt64
deriving DecidableEq, Repr

structure AbiContentResult where
  fileId : UInt64
  filename : Option Bytes
  path : Option Bytes
  extension : Option Bytes
  locatorKind : UInt32
  pageNumber : UInt32
  lineNumber : UInt32
  slideNumber : UInt32
  sheetNumber : UInt32
  byteOffset : UInt64
  logicalName : Option Bytes
  snippet : Option Bytes

/-- `candidates` is `none` for a null identifier array. -/
structure ContentSearchRequest where
  query : Bytes
  candidates : Option (List UInt64)
  maxResults : Nat
  flags : UInt32

/-- The exported functions. A failing call carries the last-error text it leaves. -/
structure Runtime where
  lastError : Bytes
  listExtensions : List Bytes
  search : Bytes → UInt32 → Nat → Except Bytes (List AbiResult)
  searchContent : Option (ContentSearchRequest → Except Bytes (List AbiContentResult))

structure Impl where
  readOnly : Bool := false
  ready : Bool := false
  error : Bytes := []
  runtime : Option Runtime := none

structure ResultItem where
  fileId : UInt64 := 0
  filename : Bytes := []
  path : Bytes := []
  extension : Bytes := []
  pinned : Bool := false
  indexed : Bool := true
  authorized : Bool := true
  modifiedUnixSeconds : Int := 0
  sizeBytes : UInt64 := 0
  contentMatch : Bool := false
  locatorKind : UInt8 := 0
  pageNumber : UInt32 := 0
  lineNumber : UInt32 := 0
  slideNumber : UInt32 := 0
  sheetNumber : UInt32 := 0
  byteOffset : UInt64 := 0
  logicalName : Bytes := []
  snippet : Bytes := []
deriving DecidableEq, Repr

/-- A C string of the runtime, empty for null. -/
def abiText (value : Option Bytes) : Bytes := (value.map cstr).getD []

theorem notMem_abiText (value : Option Bytes) : (0 : UInt8) ∉ abiText value := by
  cases value with
  | none => exact List.not_mem_nil
  | some text => exact notMem_cstr text

def appendResult (value : AbiResult) : ResultItem where
  fileId := value.fileId
  filename := abiText value.filename
  path := abiText value.path
  extension := abiText value.extension
  pinned := value.pinned ≠ 0
  indexed := value.indexed ≠ 0
  authorized := value.authorized ≠ 0
  modifiedUnixSeconds := value.modifiedUnixSeconds
  sizeBytes := value.sizeBytes

def appendContentResult (value : AbiContentResult) : ResultItem where
  fileId := value.fileId
  filename := abiText value.filename
  path := abiText value.path
  extension := abiText value.extension
  contentMatch := true
  locatorKind := value.locatorKind.toUInt8
  pageNumber := value.pageNumber
  lineNumber := value.lineNumber
  slideNumber := value.slideNumber
  sheetNumber := value.sheetNumber
  byteOffset := value.byteOffset
  logicalName := abiText value.logicalName
  snippet := abiText value.snippet

def abiError (impl : Impl) : Bytes := (impl.runtime.map (cstr ·.lastError)).getD []

def runtimeError (impl : Impl) : Bytes := if !impl.error.isEmpty then impl.error else abiError impl

def observedExtensions (impl : Impl) : List Bytes :=
  match impl.ready, impl.runtime with
  | true, some runtime => runtime.listExtensions.map cstr
  | _, _ => []

/-- Folded to lower case, without a leading dot. -/
def normalizeExtension (ext : Bytes) : Bytes :=
  let ext := lower ext
  if ext.head? = some 46 then ext.drop 1 else ext

/-- The local filter behind the runtime's own ranking. -/
def passesFilter (filter : SearchFilter) (item : ResultItem) : Bool :=
  let wantedExtensions := filter.extensions.map normalizeExtension
  let detailTerms := filter.detailTerms.map lower
  let haystack := lower (item.filename ++ 10 :: item.path)
  searchableFilename item.filename item.extension &&
    (!filter.pinnedOnly || item.pinned) &&
    (wantedExtensions.isEmpty || wantedExtensions.contains (normalizeExtension item.extension)) &&
    (filter.modified.afterUnixSeconds.all fun after => !(item.modifiedUnixSeconds < after)) &&
    (filter.modified.beforeUnixSeconds.all fun before => !(before ≤ item.modifiedUnixSeconds)) &&
    detailTerms.all fun term => term.isEmpty || occursIn term haystack

/-- Keeps passing rows until the limit, if there is one. -/
def keepRows (keep : ResultItem → Bool) (limit : Nat) (out : List ResultItem) :
    List ResultItem → List ResultItem
  | [] => out
  | item :: rest =>
    if keep item then
      let out := out ++ [item]
      if limit ≠ 0 ∧ limit ≤ out.length then out else keepRows keep limit out rest
    else keepRows keep limit out rest

section Rows

theorem keepRows_eq (keep : ResultItem → Bool) (out rows : List ResultItem) :
    keepRows keep 0 out rows = out ++ rows.filter keep := by
  induction rows generalizing out with
  | nil => simp [keepRows]
  | cons item rows ih =>
    simp only [keepRows]
    split
    · rename_i kept
      simp [ih, kept]
    · rename_i dropped
      simp [ih, dropped]

theorem keepRows_limit (keep : ResultItem → Bool) {limit : Nat} {out rows : List ResultItem}
    (room : out.length < limit) :
    keepRows keep limit out rows = out ++ (rows.filter keep).take (limit - out.length) := by
  induction rows generalizing out with
  | nil => simp only [keepRows, List.filter_nil, List.take_nil, List.append_nil]
  | cons item rows ih =>
    unfold keepRows
    by_cases kept : keep item = true
    · have positive : limit - out.length = limit - (out ++ [item]).length + 1 := by
        rw [List.length_append, List.length_singleton]
        omega
      rw [if_pos kept, List.filter_cons_of_pos kept, positive, List.take_succ_cons]
      dsimp only
      split
      · rename_i full
        have none : limit - (out ++ [item]).length = 0 := by omega
        rw [none, List.take_zero]
      · rename_i open_
        rw [ih (by omega), List.append_assoc, List.singleton_append]
    · rw [if_neg kept, List.filter_cons_of_neg kept, ih room]

end Rows

/-- The error text of a failing call, with a fallback for an empty slot. -/
def callError (abi fallback : Bytes) : Bytes := if (cstr abi).isEmpty then fallback else cstr abi

section Search
variable (zone : Zone) (dialect : PlatformDialect) (now : Int)

def rawDialect : PlatformDialect → UInt32
  | .windows => 0
  | .unixLike => 1

/-- The file pass of a search. An error leaves no rows. -/
def searchFiles (observed : List Bytes) (runtime : Runtime) (fileQuery : Bytes) (resultLimit : Nat) :
    Except Bytes (List ResultItem) :=
  let filter := parseSearchQuery zone dialect now observed fileQuery
  let runtimeQuery := compileRuntimeQuery zone dialect filter
  match runtime.search (cstr runtimeQuery) (rawDialect dialect) 0 with
  | .error abi => .error (callError abi (lit "Such private runtime search failed"))
  | .ok raw => .ok (keepRows (passesFilter filter) resultLimit [] (raw.map appendResult))

/-- The identifiers a content search may look into. -/
def candidateIds (candidates : List ResultItem) : List UInt64 :=
  (candidates.filter fun item =>
    item.indexed && searchableTextFilename item.filename item.extension).map (·.fileId)

def hasFileConstraints (filter : SearchFilter) : Bool :=
  filter.pinnedOnly || !filter.extensions.isEmpty || filter.modified.afterUnixSeconds.isSome ||
    filter.modified.beforeUnixSeconds.isSome

/-- The request itself, after the candidate set is settled. -/
def requestContent
    (searchContent : ContentSearchRequest → Except Bytes (List AbiContentResult))
    (filter : SearchFilter) (candidates : Option (List UInt64)) (maxResults : Nat) :
    Except Bytes (List ResultItem) :=
  let contentQuery := composeHangulQueryNfc filter.text
  match searchContent ⟨cstr contentQuery, candidates, 0, 0⟩ with
  | .error abi => .error (callError abi (lit "Such private runtime content search failed"))
  | .ok raw =>
    let out := (raw.map appendContentResult).filter fun item =>
      searchableTextFilename item.filename item.extension
    .ok (if maxResults ≠ 0 ∧ maxResults < out.length then out.take maxResults else out)

/-- The content pass. `restriction` is the candidate set of earlier stages, if any. -/
def searchContent (observed : List Bytes) (readOnly : Bool) (runtime : Runtime) (filter : SearchFilter)
    (restriction : Option (List UInt64)) (maxResults : Nat) : Except Bytes (List ResultItem) :=
  if readOnly then
    .error (lit "Document contents are still indexing. Filename search is available.")
  else
    match runtime.searchContent with
    | none => .error
        (lit "Such /inside requires a content-search capable private runtime (v0.7.0 or newer)")
    | some searchContent =>
      if filter.text.isEmpty then .ok []
      else
        match restriction with
        | some ids => requestContent searchContent filter (some ids) maxResults
        | none =>
          let candidateFilter := { filter with scope := .file, text := [], detailTerms := [] }
          if hasFileConstraints candidateFilter then
            let candidateQuery := compileRuntimeQuery zone dialect candidateFilter
            match searchFiles zone dialect now observed runtime candidateQuery 0 with
            | .error e => .error e
            | .ok candidates =>
              let ids := candidateIds candidates
              if ids.isEmpty then .ok []
              else requestContent searchContent filter (some ids) maxResults
          else requestContent searchContent filter none maxResults

/-- The stages before the content stage, joined back into one query. -/
def joinStages : List Bytes → Bytes
  | [] => []
  | first :: rest => rest.foldl (fun query stage => query ++ lit " /; " ++ stage) first

/-- The index of the first stage with content scope, or the number of stages. -/
def contentStage (observed : List Bytes) (stages : List Bytes) : Nat :=
  stages.findIdx fun stage =>
    decide ((parseSearchQuery zone dialect now observed stage).scope = .content)

def searchLoaded (observed : List Bytes) (readOnly : Bool) (runtime : Runtime) (query : Bytes)
    (maxResults : Nat) : Except Bytes (List ResultItem) :=
  let detail := splitDetail query
  let stages := detail.primary :: detail.refinements
  let stage := contentStage zone dialect now observed stages
  if detail.active ∧ stage ≠ stages.length then
    -- Content scope in the middle of the stages has no meaning yet.
    if stage + 1 ≠ stages.length then .error (lit "/inside must be the final Drill Search stage")
    else
      let contentFilter := parseSearchQuery zone dialect now observed (stages.getD stage [])
      if 0 < stage then
        match searchFiles zone dialect now observed runtime (joinStages (stages.take stage)) 0 with
        | .error e => .error e
        | .ok candidates =>
          let ids := candidateIds candidates
          if ids.isEmpty then .ok []
          else searchContent zone dialect now observed readOnly runtime contentFilter (some ids)
            maxResults
      else searchContent zone dialect now observed readOnly runtime contentFilter none maxResults
  else
    let filter := parseSearchQuery zone dialect now observed query
    if filter.scope = .content then
      searchContent zone dialect now observed readOnly runtime filter none maxResults
    else searchFiles zone dialect now observed runtime query maxResults

structure SearchOutcome where
  items : List ResultItem := []
  error : Bytes := []
  impl : Impl

/-- `RuntimeClient::search` at time `now`; `error` is what the caller's error
string receives. -/
def search (impl : Impl) (query : Bytes) (maxResults : Nat) : SearchOutcome :=
  match impl.ready, impl.runtime with
  | true, some runtime =>
    match searchLoaded zone dialect now (observedExtensions impl) impl.readOnly runtime query
        maxResults with
    | .error e => { error := e, impl := { impl with error := e } }
    | .ok items => { items := items, impl := { impl with error := [] } }
  | _, _ => { error := runtimeError impl, impl := impl }

end Search
end Such.RuntimeClient
