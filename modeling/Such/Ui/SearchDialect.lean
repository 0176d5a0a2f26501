import Such.Base.ByteText
import Such.Base.CivilTime

/-! The search-box query language: tokenization, date and extension filters,
Drill Search stages, and the query text sent on to the runtime. Times are exact
integers and the local zone is a parameter. -/
namespace Such.SearchDialect
open ByteText CivilTime

inductive PlatformDialect where
  | windows
  | unixLike
deriving DecidableEq, Repr

inductive SearchScope where
  | file
  | content
deriving DecidableEq, Repr

structure DateRange where
  afterUnixSeconds : Option Int := none
  beforeUnixSeconds : Option Int := none
deriving DecidableEq, Repr

structure SearchFilter where
  text : Bytes := []
  extensions : List Bytes := []
  detailTerms : List Bytes := []
  modified : DateRange := {}
  pinnedOnly : Bool := false
  scope : SearchScope := .file
deriving DecidableEq, Repr

structure DetailSearch where
  primary : Bytes := []
  refinements : List Bytes := []
  active : Bool := false
deriving DecidableEq, Repr

def operatorPrefix : PlatformDialect → Bytes
  | .windows => lit "/"
  | .unixLike => lit "//"

def kDay : Int := 86400

def kBuiltInExtensions : List Bytes := [
  -- CAD / BIM / geometry / point clouds
  "dwg", "dxf", "dwt", "dws", "dst", "3dm", "rvt", "rfa", "rte", "ifc", "ifczip",
  "skp", "dae", "fbx", "obj", "stl", "3mf", "step", "stp", "iges", "igs", "sat", "sab",
  "brep", "x_t", "x_b", "prt", "asm", "sldprt", "sldasm", "slddrw", "ipt", "iam", "idw",
  "dgn", "pln", "pla", "lcf", "gsm", "las", "laz", "e57", "pts", "ptx", "rcp", "rcs",
  "nwc", "nwd", "nwf", "shp", "geojson", "kml", "kmz",
  -- Documents / publishing / design
  "pdf", "xps", "oxps", "epub", "txt", "md", "markdown", "rtf", "doc", "docx", "odt",
  "xls", "xlsx", "xlsm", "xlsb", "ods", "csv", "tsv", "ppt", "pptx", "odp",
  "ai", "eps", "svg", "svgz", "psd", "psb", "indd", "idml", "fig", "xd", "afdesign",
  "afphoto", "afpub",
  -- Images / media
  "png", "jpg", "jpeg", "jpe", "gif", "webp", "bmp", "tif", "tiff", "heic", "heif",
  "avif", "raw", "dng", "cr2", "cr3", "nef", "arw", "orf", "rw2",
  "mp3", "wav", "flac", "aac", "m4a", "ogg", "opus", "mp4", "mov", "mkv", "avi", "webm",
  -- Source / scripts / data / configuration
  "c", "cc", "cpp", "cxx", "h", "hh", "hpp", "hxx", "m", "mm", "rs", "go", "py", "pyw",
  "js", "mjs", "cjs", "ts", "tsx", "jsx", "java", "kt", "kts", "swift", "cs", "fs", "fsx",
  "rb", "php", "lua", "sh", "bash", "zsh", "fish", "ps1", "bat", "cmd", "sql", "r", "jl",
  "html", "htm", "css", "scss", "sass", "less", "xml", "json", "jsonl", "yaml", "yml", "toml",
  "ini", "cfg", "conf", "env", "gradle", "cmake", "make", "mk", "proto", "graphql",
  -- Archives / packages / disk / binaries often searched by filename
  "zip", "7z", "rar", "tar", "gz", "bz2", "xz", "zst", "tgz", "tbz2", "txz", "iso", "dmg",
  "pkg", "deb", "rpm", "msi", "exe", "dll", "so", "dylib", "a", "lib", "jar", "war", "apk",
  "ipa", "appimage", "bin", "wasm"
].map lit

/-- Splits at every `/;`; the first piece is the primary query. -/
def splitDetail (query : Bytes) : DetailSearch :=
  match (splitPair 47 59 query).map trim with
  | [] => {}
  | primary :: refinements => ⟨primary, refinements, !refinements.isEmpty⟩

section Dates
variable (zone : Zone)

def localEpochForYmd (y m d : Int) : Option Int :=
  if y < 1970 ∨ y > 9999 ∨ m < 1 ∨ m > 12 ∨ d < 1 ∨ d > 31 then none
  else
    let epoch := zone.mktime ⟨y - 1900, m - 1, d, 0, 0, 0⟩
    if epoch = -1 then none
    else
      -- mktime normalizes invalid dates; the round trip rejects them.
      let check := zone.localtime epoch
      if check.year ≠ y - 1900 ∨ check.mon ≠ m - 1 ∨ check.mday ≠ d then none else some epoch

def parseIsoDayLocal (s : Bytes) : Option Int :=
  if s.length ≠ 10 ∨ s[4]? ≠ some 45 ∨ s[7]? ≠ some 45 then none
  else
    let ys := substr s 0 4
    let ms := substr s 5 2
    let ds := substr s 8 2
    if !allDigits ys || !allDigits ms || !allDigits ds then none
    else localEpochForYmd zone (digitsValue ys) (digitsValue ms) (digitsValue ds)

def parseIsoMonthLocal (s : Bytes) : Option (Int × Int) :=
  if s.length ≠ 7 ∨ s[4]? ≠ some 45 then none
  else
    let ys := substr s 0 4
    let ms := substr s 5 2
    if !allDigits ys || !allDigits ms then none
    else
      let y := digitsValue ys
      let m := digitsValue ms
      if m < 1 ∨ m > 12 then none
      else
        let nextY := if m = 12 then y + 1 else y
        let nextM := if m = 12 then 1 else m + 1
        match localEpochForYmd zone y m 1, localEpochForYmd zone nextY nextM 1 with
        | some first, some last => some (first, last)
        | _, _ => none

def localDayRange (now dayDelta : Int) : Option (Int × Int) :=
  let tm := zone.localtime now
  let first := zone.mktime ⟨tm.year, tm.mon, tm.mday + dayDelta, 0, 0, 0⟩
  if first = -1 then none
  else
    -- mktime left its argument normalized.
    let tm := zone.localtime first
    let last := zone.mktime { tm with mday := tm.mday + 1 }
    if last = -1 then none else some (first, last)

def parseCompactDayLocal (s : Bytes) (monthDayYear : Bool) : Option Int :=
  if s.length ≠ 8 || !allDigits s then none
  else if monthDayYear then
    localEpochForYmd zone (digitsValue (substr s 4 4)) (digitsValue (substr s 0 2))
      (digitsValue (substr s 2 2))
  else
    localEpochForYmd zone (digitsValue (substr s 0 4)) (digitsValue (substr s 4 2))
      (digitsValue (substr s 6 2))

def parseAnyCompactDayLocal (s : Bytes) : Option Int :=
  match parseCompactDayLocal zone s false with
  | some ymd => some ymd
  | none => parseCompactDayLocal zone s true

def parseCompactRangeLocal (s : Bytes) : Option (Int × Int) :=
  if s.length ≠ 17 ∨ (s[8]? ≠ some 45 ∧ s[8]? ≠ some 126) then none
  else
    let lhs := substr s 0 8
    let rhs := substr s 9 8
    -- One date order for the whole range, YYYYMMDD first.
    let ends :=
      match parseCompactDayLocal zone lhs false, parseCompactDayLocal zone rhs false with
      | some first, some last => some (first, last)
      | _, _ =>
        match parseCompactDayLocal zone lhs true, parseCompactDayLocal zone rhs true with
        | some first, some last => some (first, last)
        | _, _ => none
    match ends with
    | none => none
    | some (first, last) =>
      if last < first then none
      else
        match localDayRange zone last 1 with
        | some nextDay => some (first, nextDay.1)
        | none => some (first, last + kDay)

def parseCompactDayAsRange (s : Bytes) : Option (Int × Int) :=
  match parseAnyCompactDayLocal zone s with
  | none => none
  | some day =>
    match localDayRange zone day 0 with
    | some next => some (day, next.2)
    | none => some (day, day + kDay)

def isValidControl (body : Bytes) : Bool :=
  let v := lower body
  if v = lit "pin" ∨ v = lit "today" ∨ v = lit "yesterday" ∨ v = lit "week" ∨ v = lit "month" ∨
      v = lit "year" then true
  else if startsWith v (lit "date:") then (parseIsoDayLocal zone (v.drop 5)).isSome
  else if startsWith v (lit "after:") then (parseIsoDayLocal zone (v.drop 6)).isSome
  else if startsWith v (lit "before:") then (parseIsoDayLocal zone (v.drop 7)).isSome
  else if (parseCompactRangeLocal zone v).isSome || (parseCompactDayAsRange zone v).isSome then true
  else (parseIsoDayLocal zone v).isSome || (parseIsoMonthLocal zone v).isSome

/-- The end of the local day that starts at `d`. -/
def endOfDay (d : Int) : Int :=
  match localDayRange zone d 0 with
  | some range => range.2
  | none => d + kDay

def applyDateToken (modified : DateRange) (body : Bytes) (now : Int) : DateRange :=
  let v := lower body
  if v = lit "today" ∨ v = lit "yesterday" then
    match localDayRange zone now (if v = lit "today" then 0 else -1) with
    | some range => ⟨some range.1, some range.2⟩
    | none => modified
  else if v = lit "week" then ⟨some (now - 7 * kDay), some (now + 1)⟩
  else if v = lit "month" then ⟨some (now - 30 * kDay), some (now + 1)⟩
  else if v = lit "year" then ⟨some (now - 365 * kDay), some (now + 1)⟩
  else if startsWith v (lit "date:") then
    match parseIsoDayLocal zone (v.drop 5) with
    | some d => ⟨some d, some (endOfDay zone d)⟩
    | none => modified
  else if startsWith v (lit "after:") then
    match parseIsoDayLocal zone (v.drop 6) with
    | some d => { modified with afterUnixSeconds := some d }
    | none => modified
  else if startsWith v (lit "before:") then
    match parseIsoDayLocal zone (v.drop 7) with
    | some d => { modified with beforeUnixSeconds := some d }
    | none => modified
  else
    match parseCompactRangeLocal zone v with
    | some range => ⟨some range.1, some range.2⟩
    | none =>
      match parseCompactDayAsRange zone v with
      | some range => ⟨some range.1, some range.2⟩
      | none =>
        match parseIsoDayLocal zone v with
        | some d => ⟨some d, some (endOfDay zone d)⟩
        | none =>
          match parseIsoMonthLocal zone v with
          | some month => ⟨some month.1, some month.2⟩
          | none => modified

end Dates

def looksExtension (body : Bytes) : Bool :=
  !(body.isEmpty || decide (16 < body.length) || body.contains 58) &&
    body.all fun c => isAlnum c || c == 95 || c == 45 || c == 43

/-- An observed extension as the registry stores it, when it looks like one. -/
def observedExtension (ext0 : Bytes) : Option Bytes :=
  let ext := lower ext0
  let ext := if ext.head? = some 46 then ext.drop 1 else ext
  if looksExtension ext then some ext else none

def extensionRegistry (observed : List Bytes) : List Bytes :=
  kBuiltInExtensions ++ observed.filterMap observedExtension

/-- What one whitespace-separated token of a query is taken for. -/
inductive TokenClass where
  | inside
  | date (body : Bytes)
  | pin
  | extension (ext : Bytes)
  | text
deriving DecidableEq, Repr

structure ParseState where
  filter : SearchFilter := {}
  textParts : List Bytes := []

section Parse
variable (zone : Zone) (dialect : PlatformDialect) (now : Int) (observed : List Bytes)

/-- Compact dates are also read behind either operator prefix. -/
def compactCandidate (token : Bytes) : Bytes :=
  if startsWith token (lit "//") then token.drop 2
  else if startsWith token (lit "/") then token.drop 1
  else token

def classifyToken (token : Bytes) : TokenClass :=
  if lower token = lit "/inside" then .inside
  else if (parseCompactRangeLocal zone (compactCandidate token)).isSome ||
      (parseCompactDayAsRange zone (compactCandidate token)).isSome then
    .date (compactCandidate token)
  else if !startsWith token (operatorPrefix dialect) ||
      token.length = (operatorPrefix dialect).length then .text
  else
    let body := token.drop (operatorPrefix dialect).length
    if lower body = lit "pin" then .pin
    else if isValidControl zone body then .date body
    else if looksExtension body && (extensionRegistry observed).contains (lower body) then
      .extension (lower body)
    -- Unknown or unregistered operator tokens stay ordinary text.
    else .text

def applyToken (state : ParseState) (token : Bytes) : ParseState :=
  let out := state.filter
  match classifyToken zone dialect observed token with
  | .inside => { state with filter := { out with scope := .content } }
  | .date body =>
    { state with filter := { out with modified := applyDateToken zone out.modified body now } }
  | .pin => { state with filter := { out with pinnedOnly := true } }
  | .extension ext =>
    if out.extensions.contains ext then state
    else { state with filter := { out with extensions := out.extensions ++ [ext] } }
  | .text => { state with textParts := state.textParts ++ [token] }

/-- One query text without Drill Search stages. -/
def parseTokens (query : Bytes) : SearchFilter :=
  let state := (words query).foldl (applyToken zone dialect now observed) {}
  { state.filter with text := joinWords state.textParts }

/-- The primary query and its refinements flattened into one text. -/
def normalizedQuery (detail : DetailSearch) : Bytes :=
  detail.refinements.foldl
    (fun query refinement =>
      if !query.isEmpty && !refinement.isEmpty then query ++ 32 :: refinement
      else query ++ refinement)
    detail.primary

def parseSearchQuery (query : Bytes) : SearchFilter :=
  let detail := splitDetail query
  if detail.active then
    { parseTokens zone dialect now observed (normalizedQuery detail) with
      detailTerms := (detail.refinements.map fun refinement =>
        (parseTokens zone dialect now observed refinement).text).filter (!·.isEmpty) }
  else parseTokens zone dialect now observed query

end Parse

section Compile
variable (zone : Zone) (dialect : PlatformDialect)

/-- `strftime` with `%Y-%m-%d` into a 16-byte buffer. -/
def isoLocalDay (epoch : Int) : Bytes :=
  let tm := zone.localtime epoch
  let text := decimalInt (tm.year + 1900) ++ 45 :: fixedDigits 2 (tm.mon + 1).toNat ++
    45 :: fixedDigits 2 tm.mday.toNat
  if text.length < 16 then text else []

/-- The operator token for one date bound, or nothing when it has no spelling. -/
def dayToken (name : Bytes) (bound : Option Int) : Bytes :=
  match bound with
  | none => []
  | some epoch =>
    let day := isoLocalDay zone epoch
    if day.isEmpty then [] else operatorPrefix dialect ++ name ++ day

def compileRuntimeQuery (filter : SearchFilter) : Bytes :=
  let pieces := [filter.text] ++ filter.extensions.map (operatorPrefix dialect ++ ·) ++
    [if filter.pinnedOnly then operatorPrefix dialect ++ lit "pin" else [],
      dayToken zone dialect (lit "after:") filter.modified.afterUnixSeconds,
      dayToken zone dialect (lit "before:") filter.modified.beforeUnixSeconds]
  joinWords (pieces.filter (!·.isEmpty))

end Compile

end Such.SearchDialect
