import GraphSchema.Text.Escaped
import GraphSchema.Text.Lines

namespace GraphSchema.Package

inductive Error
  | noFile (path : String)
  | isDirectory (path : String)
  -- Something in the path that should be a directory is a file.
  | notADirectory (path : String)
  -- No path holds the character zero.
  | zeroInPath
  | noVersion
  -- The line of the version has no quote in it.
  | noQuote
  deriving DecidableEq

def parts (path : String) : List String :=
  let (last, done) := path.toList.foldr
    (fun c (cur, acc) => if c = '/' then ([], cur :: acc) else (c :: cur, acc))
    (([] : List Char), ([] : List (List Char)))
  (last :: done).map String.ofList

def isAbsolute (path : String) : Bool := path.toList.head? == some '/'

-- A path as it is shown: seen from the package directory, unless it is absolute.
def shown (path : String) : String :=
  Escaped.text (if isAbsolute path then path else "DIR/" ++ path)

def Error.message : Error → String
  | noFile path => "[Errno 2] No such file or directory: " ++ shown path
  | isDirectory path => "[Errno 21] Is a directory: " ++ shown path
  | notADirectory path => "[Errno 20] Not a directory: " ++ shown path
  | zeroInPath => "embedded null byte"
  | noVersion => "Unable to find version string."
  | noQuote => "list index out of range"

abbrev Place := List String

namespace Place

-- The place one part further on. Nothing is known of what lies outside the package.
def step? (p : Place) (part : String) : Option Place :=
  if part = "" ∨ part = "." then some p
  else if part = ".." then (if p = [] then none else some p.dropLast)
  else some (p ++ [part])

def ofPath? (path : String) : Option Place := (parts path).foldlM step? []

end Place

abbrev Files := List (Place × String)

namespace Files

-- Files written one after the other: the last text of a place is the one that stays.
def ofTexts (texts : List (String × String)) : Files :=
  (texts.filterMap fun (path, s) => (Place.ofPath? path).map (·, s)).reverse

def text? (fs : Files) (p : Place) : Option String := (fs.find? (·.1 == p)).map (·.2)

def isDirectory (fs : Files) (p : Place) : Bool :=
  p == [] || fs.any fun f => p.isPrefixOf f.1 && p.length < f.1.length

-- Where a path leads. Only a directory leads further on.
def follow (fs : Files) (path : String) : Place → List String → Except Error Place
  | p, [] => .ok p
  | p, part :: rest =>
    if fs.isDirectory p then
      match p.step? part with
      | some q => fs.follow path q rest
      | none => .error (.noFile path)
    else if (fs.text? p).isSome then .error (.notADirectory path)
    else .error (.noFile path)

def find (fs : Files) (path : String) : Except Error Place :=
  if '\x00' ∈ path.toList then .error .zeroInPath
  else if isAbsolute path then .error (.noFile path)
  else fs.follow path [] (parts path)

def read (fs : Files) (path : String) : Except Error (List Char) := do
  let p ← fs.find path
  match fs.text? p with
  | some s => return Lines.unify s.toList
  | none => throw (if fs.isDirectory p then .isDirectory path else .noFile path)

def readLines (fs : Files) (path : String) : Except Error (List (List Char)) :=
  return Lines.split (← fs.read path)

end Files

end GraphSchema.Package
