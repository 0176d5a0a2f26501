import Such.Base.ByteText

/-! Which files the search pages present, decided from the name alone. -/
namespace Such.SearchableFiles
open ByteText

/-- Sorted by signed byte value for the binary search below. -/
def kAllowedExtensions : List Bytes := [
  "3dm", "3ds", "7z", "a", "aac", "adoc", "ai", "apk", "arrow", "asm", "ass", "astro", "avi",
  "avif", "awk", "azw", "azw3", "bash", "bat", "bib", "bicep", "blend", "bmp", "bz2", "c", "c++",
  "cab", "cc", "cfg", "cjs", "clang-format", "clang-tidy", "class", "clj", "cljc", "cljs",
  "cmake", "cmd", "comp", "conf", "coverage", "cpp", "cr2", "crate", "cs", "css", "csv", "cu",
  "cuh", "cxx", "dae", "dart", "db", "db3", "deb", "def", "diff", "djvu", "dll", "dmg", "dng",
  "doc", "dockerignore", "docm", "docx", "dwg", "dws", "dwt", "dxf", "dylib", "ear",
  "editorconfig", "edn", "egg", "elm", "env", "eot", "eps", "epub", "erl", "ex", "exe", "expect",
  "exs", "fbx", "feather", "fish", "flac", "frag", "fs", "fsx", "fx", "gcda", "gcno", "gem",
  "geom", "gif", "gitattributes", "gitignore", "glb", "glsl", "gltf", "go", "gql", "gradle",
  "gradle.kts", "graphql", "groovy", "gz", "h", "h5", "hcl", "hdf5", "heic", "heif", "hh",
  "hlsl", "hpp", "hrl", "hs", "htm", "html", "hwp", "hwpx", "hxx", "icns", "ico", "idl", "ifc",
  "ifczip", "iges", "igs", "img", "ini", "inl", "ipp", "ipynb", "iso", "ixx", "jar", "java",
  "jl", "jpeg", "jpg", "js", "json", "jsonl", "jsx", "key", "kt", "kts", "lcov", "less", "lhs",
  "lib", "lock", "log", "lua", "lz4", "m", "m4a", "m4v", "make", "map", "markdown", "md", "mid",
  "midi", "mjs", "mk", "mkv", "mm", "mobi", "mov", "mp3", "mp4", "msi", "msix", "nasm", "nef",
  "nim", "nix", "npmrc", "npy", "npz", "numbers", "o", "obj", "odp", "ods", "odt", "ogg", "onnx",
  "opus", "otf", "pages", "parquet", "patch", "pdb", "pdf", "php", "pickle", "pkl", "pl", "pm",
  "png", "ppt", "pptm", "pptx", "prettierrc", "pri", "pro", "properties", "proto", "ps1", "psd",
  "psd1", "psm1", "pt", "pth", "py", "pyi", "pyz", "qmake", "qrc", "qss", "r", "rake", "rar",
  "raw", "rb", "rc", "resx", "rfa", "rft", "rmd", "rpm", "rs", "rst", "rte", "rtf", "rvt", "rws",
  "s", "safetensors", "sass", "sat", "sbt", "sc", "scala", "scss", "sed", "sh", "skp", "so",
  "sql", "sqlite", "sqlite3", "srt", "step", "stl", "stp", "sv", "svelte", "svg", "swift", "tar",
  "tcl", "tex", "text", "tf", "tfvars", "tgz", "tif", "tiff", "toml", "ts", "tsv", "tsx", "ttf",
  "txt", "ui", "usd", "usdz", "v", "vb", "vert", "vhd", "vhdl", "vtt", "vue", "war", "wasm",
  "wav", "webm", "webp", "wgsl", "whl", "wma", "wmv", "woff", "woff2", "xcf", "xls", "xlsm",
  "xlsx", "xml", "xsd", "xz", "yaml", "yml", "zig", "zip", "zsh", "zst"
].map lit

def kExtensionlessNames : List Bytes := [
  "Makefile", "GNUmakefile", "Dockerfile", "Containerfile", "CMakeLists.txt", "Justfile",
  "Taskfile", "Procfile", "Vagrantfile", "Rakefile", "Gemfile", "Guardfile", "Brewfile",
  "Podfile", "Fastfile", "Appfile", "README", "LICENSE", "NOTICE", "COPYING", "AUTHORS",
  "CHANGELOG", "CONTRIBUTING", "CODEOWNERS", "BUILD", "BUILD.bazel", "WORKSPACE",
  "WORKSPACE.bazel", "MODULE.bazel"
].map lit

/-- Suffixes whose contents may be shown as text. -/
def kTextExtensions : List Bytes := [
  "adoc", "asm", "astro", "awk", "bash", "bat", "bib", "bicep", "c", "cc", "clang-format",
  "clang-tidy", "dockerignore", "cfg", "cjs", "clj", "cljc", "cljs", "cmake", "cmd", "conf",
  "cpp", "cs", "css", "cu", "cuh", "cxx", "dart", "diff", "editorconfig", "edn", "elm", "env",
  "erl", "ex", "exs", "fish", "frag", "fs", "fsx", "gitattributes", "gitignore", "glsl", "go",
  "gql", "gradle", "graphql", "groovy", "h", "hcl", "hh", "hlsl", "hpp", "hrl", "hs", "htm",
  "html", "idl", "ini", "inl", "ipp", "ixx", "java", "jl", "js", "json", "jsonl", "jsx", "kt",
  "kts", "less", "lhs", "lock", "log", "lua", "m", "markdown", "md", "mjs", "mk", "nasm", "nim",
  "nix", "npmrc", "php", "pl", "pm", "prettierrc", "properties", "proto", "ps1", "psd1", "psm1",
  "py", "pyi", "r", "rb", "rmd", "rs", "rst", "s", "sass", "scala", "scss", "sed", "sh", "sql",
  "srt", "sv", "svelte", "tex", "text", "tf", "toml", "ts", "tsx", "txt", "xml", "yaml", "yml",
  "zig", "zsh", "csv", "tsv"
].map lit

def equalsAsciiCi (a b : Bytes) : Bool := lower a == lower b

/-- Signed `char` order. -/
def charLt (a b : UInt8) : Bool := a.toInt8 < b.toInt8

/-- Three-way comparison of a folded suffix with a table entry. -/
def compareSuffix : Bytes → Bytes → Int
  | [], [] => 0
  | [], _ :: _ => -1
  | _ :: _, [] => 1
  | a :: extension, b :: candidate =>
    if toLower a ≠ b then (if charLt (toLower a) b then -1 else 1)
    else compareSuffix extension candidate

/-- The binary search. Each round halves the gap, so the table length is fuel enough. -/
def lowerBound (table : List Bytes) (extension : Bytes) : Nat → Nat → Nat → Nat
  | 0, low, _ => low
  | fuel + 1, low, high =>
    if low < high then
      let middle := low + (high - low) / 2
      if 0 < compareSuffix extension (table.getD middle []) then
        lowerBound table extension fuel (middle + 1) high
      else lowerBound table extension fuel low middle
    else low

/-- The part of a name after its last slash or backslash. -/
def baseName (filename : Bytes) : Bytes := filename.rtakeWhile fun b => b != 47 && b != 92

/-- The suffix a name is judged by: after the last dot, the whole rest for a
dotfile, nothing without a dot. -/
def nameSuffix (filename : Bytes) : Option Bytes :=
  if !filename.contains 46 then none else some (filename.rtakeWhile (· != 46))

/-- The extension argument is read over: the actual name decides. -/
def searchableFilename (filename _extension : Bytes) : Bool :=
  let filename := baseName filename
  if filename.isEmpty then false
  else if kExtensionlessNames.any (equalsAsciiCi filename) then true
  else
    match nameSuffix filename with
    | none => false
    | some [] => false
    | some extension =>
      let low := lowerBound kAllowedExtensions extension kAllowedExtensions.length 0
        kAllowedExtensions.length
      match kAllowedExtensions[low]? with
      | none => false
      | some entry => equalsAsciiCi extension entry

def searchableTextFilename (filename extension : Bytes) : Bool :=
  if !searchableFilename filename extension then false
  else
    let filename := baseName filename
    if kExtensionlessNames.any (equalsAsciiCi filename) then true
    else
      match nameSuffix filename with
      | none => false
      | some extension => kTextExtensions.any (equalsAsciiCi extension)

end Such.SearchableFiles
