import Such.Base.FileSystem

/-! Lexical operations on path texts under POSIX and Windows rules. A Windows path is
kept as the UTF-8 text of its UTF-16 units; every unit looked for here is ASCII. -/
namespace LexicalPath
open ByteText

inductive Convention where
  | posix
  | windows
deriving DecidableEq, Repr

def isSeparator : Convention → UInt8 → Bool
  | .posix, b => b == 47
  | .windows, b => b == 47 || b == 92

def preferred : Convention → UInt8
  | .posix => 47
  | .windows => 92

def isDriveLetter (b : UInt8) : Bool := isUpper b || (97 ≤ b && b ≤ 122)

/-- A device namespace such as `\\?\` or `\??\`. -/
def isDevice (path : Bytes) : Bool :=
  match path with
  | _ :: b :: c :: d :: rest =>
    isSeparator .windows d && !(rest.head?.any (isSeparator .windows)) &&
      ((isSeparator .windows b && (c == 63 || c == 46)) || (b == 63 && c == 63))
  | _ => false

/-- The drive or the server in front of a Windows path. -/
def rootNameLength : Convention → Bytes → Nat
  | .posix, _ => 0
  | .windows, path =>
    match path with
    | a :: b :: rest =>
      if isDriveLetter a && b == 58 then 2
      else if !isSeparator .windows a then 0
      else if isDevice path then 3
      else if isSeparator .windows b && rest.head?.any (!isSeparator .windows ·) then
        2 + (rest.takeWhile (!isSeparator .windows ·)).length
      else 0
    | _ => 0

/-- One component of a path being normalised onto the components kept, last first. -/
def pushPart (rooted : Bool) (stack : List Bytes) (part : Bytes) : List Bytes :=
  if part = [46] then stack
  else if part = [46, 46] then
    match stack with
    | top :: below => if top = [46, 46] then part :: stack else below
    | [] => if rooted then [] else [part]
  else part :: stack

section Convention
variable (c : Convention)

def rootName (path : Bytes) : Bytes :=
  (path.take (rootNameLength c path)).map fun b => if isSeparator c b then preferred c else b

/-- What follows the root name. -/
def afterRootName (path : Bytes) : Bytes := path.drop (rootNameLength c path)

def rooted (path : Bytes) : Bool := (afterRootName c path).head?.any (isSeparator c)

def parts (path : Bytes) : List Bytes := fields (isSeparator c) (afterRootName c path)

/-- A path that ends in a separator or in a dot link names a directory. -/
def endsInDirectory (path : Bytes) : Bool :=
  (afterRootName c path).getLast?.any (isSeparator c) ||
    (parts c path).getLast?.any fun part => part == [46] || part == [46, 46]

def lexicallyNormal (path : Bytes) : Bytes :=
  if path.isEmpty then []
  else
    let root := rootName c path ++ if rooted c path then [preferred c] else []
    match (parts c path).foldl (pushPart (rooted c path)) [] with
    | [] => if root.isEmpty then [46] else root
    | top :: below =>
      root ++ joinWith (preferred c) (top :: below).reverse ++
        if top ≠ [46, 46] ∧ endsInDirectory c path then [preferred c] else []

/-- The generic format, with forward slashes. -/
def genericText (path : Bytes) : Bytes :=
  match c with
  | .posix => FileSystem.generic path
  | .windows => path.map fun b => if b = 92 then 47 else b

/-- The last component, empty behind a trailing separator. -/
def filename (path : Bytes) : Bytes := (afterRootName c path).rtakeWhile (!isSeparator c ·)

/-- Without the last component and the separators in front of it, down to the root. -/
def parentPath (path : Bytes) : Bytes :=
  let rest := afterRootName c path
  let lead := rest.takeWhile (isSeparator c)
  let stem := ((rest.drop lead.length).rdropWhile (!isSeparator c ·)).rdropWhile (isSeparator c)
  path.take (rootNameLength c path) ++ lead ++ stem

/-- A relative name appended to a directory. -/
def joinName (path name : Bytes) : Bytes :=
  if (afterRootName c path).isEmpty then
    if 3 ≤ path.length then path ++ preferred c :: name else path ++ name
  else if path.getLast?.any (isSeparator c) then path ++ name
  else path ++ preferred c :: name

end Convention

/-- Trailing slashes dropped, but never the only character. -/
def stripTrailing (text : Bytes) : Bytes :=
  let stripped := text.rdropWhile (· == 47)
  if stripped.isEmpty then text.take 1 else stripped

example : lexicallyNormal .posix (lit "/a/./b/../c//") = lit "/a/c/" := by decide

example : lexicallyNormal .windows (lit "C:/Users/../x\\.") = lit "C:\\x\\" := by decide

end LexicalPath
