import GraphSchema.Package.Files

namespace GraphSchema.Package

def versionPath : String := "src/py_sdl/version.py"

def isVersionLine (line : List Char) : Bool := "__version__".toList.isPrefixOf line

-- A double quote delimits the version if there is one in the line, else a single quote.
def delimiterOf (line : List Char) : Char := if '"' ∈ line then '"' else '\''

-- What stands between the first two delimiters, or after the only one.
def between? (q : Char) (line : List Char) : Option (List Char) :=
  match line.dropWhile (· != q) with
  | [] => none
  | _ :: rest => some (rest.takeWhile (· != q))

def versionOf (lines : List (List Char)) : Except Error String :=
  match lines.find? isVersionLine with
  | none => .error .noVersion
  | some line =>
    match between? (delimiterOf line) line with
    | none => .error .noQuote
    | some v => .ok (String.ofList v)

def version (fs : Files) : Except Error String := do
  versionOf (← fs.readLines versionPath)

end GraphSchema.Package
