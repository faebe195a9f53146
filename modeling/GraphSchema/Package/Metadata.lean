import GraphSchema.Package.Requirements
import GraphSchema.Package.Version

namespace GraphSchema.Package

-- What a package says about itself that its files decide. What lists the packages below a directory
-- comes from outside.
structure Metadata where
  version : String
  longDescription : String
  packages : List String
  requires : List String
  testRequires : List String
  devRequires : List String
  deriving DecidableEq

def sourceDir : String := "src"

def devPaths : List String :=
  ["requirements-dev.txt", "requirements-tests.txt", "requirements-lint.txt",
    "requirements-mypy.txt"]

def metadata (findPackages : String → Files → List String) (fs : Files) :
    Except Error Metadata := do
  let readme ← fs.read "README.md"
  let version ← version fs
  let requires ← requirements fs ["requirements.txt"]
  let testRequires ← requirements fs ["requirements-tests.txt"]
  let devRequires ← requirements fs devPaths
  return {
    version, requires, testRequires, devRequires
    longDescription := String.ofList ('\n' :: readme)
    packages := findPackages sourceDir fs }

end GraphSchema.Package
