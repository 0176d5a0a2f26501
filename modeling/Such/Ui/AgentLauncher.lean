import Such.Base.LexicalPath
import Such.Ui.QueryCommands

/-! The scripts that open an AI agent in a terminal beside the product's own command server.
Every path in them is quoted; the rest of a script depends on the agent only. -/
namespace Such.AgentLauncher
open ByteText LexicalPath QueryCommands

/-- The 16-bit units of a wide string. -/
abbrev WideText := List UInt16

def wide (s : String) : WideText := s.toList.map fun c => UInt16.ofNat c.toNat

def psQuote (value : WideText) : WideText :=
  39 :: (value.flatMap fun c => if c = 39 then [39, 39] else [c]) ++ [39]

/-- The units of a wide path as bytes; every unit a path rule looks for is ASCII. -/
def narrowed (path : WideText) : Bytes := path.map fun u => if u < 128 then u.toUInt8 else 128

/-- A name appended to a wide directory path. -/
def joinWide (directory name : WideText) : WideText :=
  if (afterRootName .windows (narrowed directory)).isEmpty then
    if 3 ≤ directory.length then directory ++ 92 :: name else directory ++ name
  else if (narrowed directory).getLast?.any (isSeparator .windows) then directory ++ name
  else directory ++ 92 :: name

def siblingMcpWide (directory : WideText) : WideText := joinWide directory (wide "SuchMCP.exe")

def siblingRuntimeWide (directory : WideText) : WideText :=
  joinWide directory (wide "SuchRuntimePrivate.dll")

/-- What the script does between setting its paths and starting the agent. -/
def powershellBootstrap : WideText :=
  wide "$cache=Join-Path $env:LOCALAPPDATA 'Heritage\\SuchMCP'; $cached=Join-Path $cache " ++
  wide "'bin\\SuchMCP.exe'; if ((-not (Test-Path -LiteralPath $mcp)) -and (Test-Path " ++
  wide "-LiteralPath $cached)) \x7b $mcp=$cached \x7d; " ++
  wide "if (-not (Test-Path -LiteralPath $mcp)) \x7b $repo=Join-Path $cache 'repo'; " ++
  wide "$src=Join-Path $cache 'src'; New-Item -ItemType Directory -Force $cache | Out-Null; " ++
  wide "if (-not (Test-Path (Join-Path $repo '.git'))) \x7b git clone --depth 1 " ++
  wide "https://github.com/Heritage-113/suchMCP.git $repo \x7d else \x7b git -C $repo pull " ++
  wide "--ff-only | Out-Null \x7d; " ++
  wide "$buildRoot=$repo; if (-not (Test-Path (Join-Path $buildRoot 'CMakeLists.txt'))) \x7b " ++
  wide "$zip=Get-ChildItem $repo -Filter 'SuchMCP*_SourceOnly.zip' | Select-Object -First 1; " ++
  wide "if (-not $zip) \x7b throw 'SuchMCP source archive not found' \x7d; Remove-Item " ++
  wide "-Recurse -Force $src -ErrorAction SilentlyContinue; Expand-Archive -Force " ++
  wide "$zip.FullName $src; $cmakeFile=Get-ChildItem $src -Recurse -Filter CMakeLists.txt | " ++
  wide "Select-Object -First 1; if (-not $cmakeFile) \x7b throw 'SuchMCP CMakeLists.txt not " ++
  wide "found' \x7d; $buildRoot=Split-Path $cmakeFile.FullName -Parent \x7d; " ++
  wide "$buildScript=Join-Path $buildRoot 'scripts\\build_windows.cmd'; if (Test-Path " ++
  wide "$buildScript) \x7b & $buildScript -Clean; if ($LASTEXITCODE -ne 0) \x7b exit " ++
  wide "$LASTEXITCODE \x7d; $searchRoot=$buildRoot \x7d else \x7b $build=Join-Path $cache " ++
  wide "'build'; Remove-Item -Recurse -Force $build -ErrorAction SilentlyContinue; cmake -S " ++
  wide "$buildRoot -B $build -DCMAKE_BUILD_TYPE=Release; if ($LASTEXITCODE -ne 0) \x7b exit " ++
  wide "$LASTEXITCODE \x7d; cmake --build $build --config Release --parallel; if " ++
  wide "($LASTEXITCODE -ne 0) \x7b exit $LASTEXITCODE \x7d; $searchRoot=$build \x7d; " ++
  wide "$built=Get-ChildItem $searchRoot -Recurse -Filter SuchMCP.exe | Select-Object -First " ++
  wide "1; if (-not $built) \x7b throw 'SuchMCP build output not found' \x7d; New-Item " ++
  wide "-ItemType Directory -Force (Split-Path $cached -Parent) | Out-Null; Copy-Item -Force " ++
  wide "$built.FullName $cached; $mcp=$cached \x7d; " ++
  wide "if (-not (Test-Path -LiteralPath $runtime)) \x7b throw 'Such private runtime is " ++
  wide "missing beside Such.exe' \x7d; "

def powershellAgent : AgentKind → WideText
  | .codex =>
    wide "if (-not (Get-Command codex -ErrorAction SilentlyContinue)) \x7b throw 'Such: Codex " ++
    wide "CLI is not installed.' \x7d; codex mcp remove such *> $null; codex mcp add such " ++
    wide "--env ('SUCH_RUNTIME_LIBRARY=' + $runtime) -- $mcp; codex"
  | .claude =>
    wide "if (-not (Get-Command claude -ErrorAction SilentlyContinue)) \x7b throw 'Such: " ++
    wide "Claude CLI is not installed.' \x7d; claude mcp remove such *> $null; claude mcp add " ++
    wide "--scope local --transport stdio such --env ('SUCH_RUNTIME_LIBRARY=' + $runtime) -- " ++
    wide "$mcp; claude"

/-- The script a new PowerShell window runs. -/
def powershellScript (kind : AgentKind) (cwd directory : WideText) : WideText :=
  wide "Set-Location -LiteralPath " ++ psQuote cwd ++ wide "; " ++
  wide "$mcp=" ++ psQuote (siblingMcpWide directory) ++ wide "; $runtime=" ++
    psQuote (siblingRuntimeWide directory) ++ wide "; " ++
  powershellBootstrap ++ powershellAgent kind

def suchMcpRepository : Bytes := lit "https://github.com/Heritage-113/suchMCP.git"

def shellQuotePosix (value : Bytes) : Bytes :=
  39 :: (value.flatMap fun c => if c = 39 then [39, 92, 39, 39] else [c]) ++ [39]

def siblingMcpPath (directory : Bytes) : Bytes := joinName .posix directory (lit "SuchMCP")

def siblingRuntimePath (directory : Bytes) : Bytes :=
  joinName .posix directory (lit "libSuchRuntimePrivate.so")

/-- The command server is used where it stands, taken from the cache, or built there. -/
def bootstrapLines : List Bytes := [
  lit "CACHE=\"$\x7bXDG_CACHE_HOME:-$HOME/.cache\x7d/heritage/such-mcp\"; " ++
    lit "REPO=\"$CACHE/repo\"; SRC=\"$CACHE/src\"; BUILD=\"$CACHE/build\"; " ++
    lit "CACHED=\"$CACHE/bin/SuchMCP\"; ",
  lit "if [ ! -x \"$MCP\" ] && [ -x \"$CACHED\" ]; then MCP=\"$CACHED\"; fi; ",
  lit "if [ ! -x \"$MCP\" ]; then ",
  lit "command -v git >/dev/null 2>&1 || \x7b echo 'Such: git is required to bootstrap " ++
    lit "SuchMCP.' >&2; exit 70; \x7d; ",
  lit "command -v cmake >/dev/null 2>&1 || \x7b echo 'Such: cmake is required to bootstrap " ++
    lit "SuchMCP.' >&2; exit 70; \x7d; ",
  lit "mkdir -p \"$CACHE\"; ",
  lit "if [ ! -d \"$REPO/.git\" ]; then git clone --depth 1 " ++
      shellQuotePosix suchMcpRepository ++ lit " \"$REPO\" || exit $?; ",
  lit "else git -C \"$REPO\" pull --ff-only >/dev/null 2>&1 || true; fi; ",
  lit "BUILDROOT=\"$REPO\"; ",
  lit "if [ ! -f \"$BUILDROOT/CMakeLists.txt\" ]; then ",
  lit "ZIP=$(find \"$REPO\" -maxdepth 1 -type f -name 'SuchMCP*_SourceOnly.zip' -print | head " ++
    lit "-n 1); ",
  lit "[ -n \"$ZIP\" ] || \x7b echo 'Such: SuchMCP source archive not found.' >&2; exit 71; " ++
    lit "\x7d; ",
  lit "rm -rf \"$SRC\"; mkdir -p \"$SRC\"; (cd \"$SRC\" && cmake -E tar xf \"$ZIP\") || exit " ++
    lit "$?; ",
  lit "CMAKEFILE=$(find \"$SRC\" -type f -name CMakeLists.txt -print | head -n 1); ",
  lit "[ -n \"$CMAKEFILE\" ] || \x7b echo 'Such: SuchMCP CMakeLists.txt not found after " ++
    lit "extraction.' >&2; exit 72; \x7d; ",
  lit "BUILDROOT=$(dirname \"$CMAKEFILE\"); fi; ",
  lit "if [ -x \"$BUILDROOT/scripts/build_linux.sh\" ]; then bash " ++
    lit "\"$BUILDROOT/scripts/build_linux.sh\" --clean || exit $?; ",
  lit "else rm -rf \"$BUILD\"; cmake -S \"$BUILDROOT\" -B \"$BUILD\" " ++
    lit "-DCMAKE_BUILD_TYPE=Release || exit $?; cmake --build \"$BUILD\" --config Release " ++
    lit "--parallel || exit $?; BUILDROOT=\"$BUILD\"; fi; ",
  lit "BUILT=$(find \"$BUILDROOT\" -type f -name SuchMCP -print | head -n 1); ",
  lit "[ -x \"$BUILT\" ] || \x7b echo 'Such: SuchMCP build did not produce an executable.' " ++
    lit ">&2; exit 73; \x7d; ",
  lit "mkdir -p \"$(dirname \"$CACHED\")\"; cp \"$BUILT\" \"$CACHED\"; chmod 755 \"$CACHED\"; " ++
    lit "MCP=\"$CACHED\"; fi; "]

def posixMcpBootstrap (siblingMcp : Bytes) : Bytes :=
  lit "MCP=" ++ shellQuotePosix siblingMcp ++ lit "; " ++ bootstrapLines.flatten

def posixAgent : AgentKind → Bytes
  | .codex =>
    lit "command -v codex >/dev/null 2>&1 || \x7b echo 'Such: Codex CLI is not installed.' " ++
    lit ">&2; exit 75; \x7d; " ++
    lit "codex mcp remove such >/dev/null 2>&1 || true; " ++
    lit "codex mcp add such --env SUCH_RUNTIME_LIBRARY=\"$RUNTIME\" -- \"$MCP\"; exec codex"
  | .claude =>
    lit "command -v claude >/dev/null 2>&1 || \x7b echo 'Such: Claude CLI is not installed.' " ++
    lit ">&2; exit 75; \x7d; " ++
    lit "claude mcp remove such >/dev/null 2>&1 || true; " ++
    lit "claude mcp add --scope local --transport stdio such --env " ++
    lit "SUCH_RUNTIME_LIBRARY=\"$RUNTIME\" -- \"$MCP\"; exec claude"

def posixAgentScript (kind : AgentKind) (cwd directory : Bytes) : Bytes :=
  lit "set -e; cd -- " ++ shellQuotePosix cwd ++ lit "; " ++
  posixMcpBootstrap (siblingMcpPath directory) ++
  lit "RUNTIME=" ++ shellQuotePosix (siblingRuntimePath directory) ++ lit "; " ++
  lit "[ -f \"$RUNTIME\" ] || \x7b echo 'Such private runtime is missing beside the Such " ++
  lit "executable.' >&2; exit 74; \x7d; " ++
  posixAgent kind

end Such.AgentLauncher
