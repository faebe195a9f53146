namespace GraphSchema.Package

inductive Task
  | clean | test | lint | types | format | check | build
  deriving DecidableEq, Inhabited

inductive Step
  | enter
  | leave
  | run (command : String) (echo terminal : Bool)
  deriving DecidableEq

-- Settings of a task. What is empty counts as missing.
structure Settings where
  full : Bool := false
  coverage : Bool := false
  bail : Bool := true
  verbose : Bool := false
  junit : Bool := false
  expression : String := ""
  files : List String := []
  ignored : List String := []

def command (parts : List String) : String := " ".intercalate (parts.filter (· != ""))

def sources : String := "src/py_sdl"

def targets : String := sources ++ " tests examples"

def chosen (usual : String) (files : List String) : String :=
  if files.isEmpty then usual else " ".intercalate files

def inRoot (steps : List Step) : List Step := .enter :: steps ++ [.leave]

namespace Task

def all : List Task := [clean, test, lint, types, format, check, build]

def name : Task → String
  | clean => "clean"
  | test => "test"
  | lint => "flake8"
  | types => "mypy"
  | format => "fmt"
  | check => "check"
  | build => "build"

def ofName? (n : String) : Option Task := all.find? (·.name == n)

theorem ofName?_name (t : Task) : ofName? t.name = some t := by cases t <;> decide

def aliases : Task → List String
  | types => ["typecheck"]
  | format => ["format"]
  | _ => []

def repeatable : Task → List String
  | test => ["files", "ignore"]
  | lint | types | format => ["files"]
  | _ => []

def before : Task → List Task
  | check => [lint, types, test]
  | _ => []

def doc : Task → String
  | clean => "Remove artifacts and local caches."
  | test =>
    "Run test suite (using: py.test).\n\n"
      ++ "    You should be able to run pytest directly but this provides some useful\n"
      ++ "    shortcuts and defaults."
  | lint | types => ""
  | format => "Run formatters."
  | check => "Run all checks (lint, typecheck and tests)."
  | build => "Build source distribution and wheel."

def cleanSteps (full : Bool) : List Step :=
  let plain (c : String) : Step := .run c false false
  let usual :=
    ["find src tests -type f -name \"*.pyc\" -delete",
      "find src tests -type d -name \"__pycache__\" -delete",
      "find . src tests -type f -path \"*.egg-info*\" -delete"]
  let rest :=
    command ["rm", "-rf ", ".pytest_cache", ".mypy_cache", "junit*.xml", "htmlcov*",
      "coverage*.xml", ".coverage*", "dist", "build"]
  inRoot ((usual ++ if full then [rest] else []).map plain)

def testCommand (s : Settings) : String :=
  command
    ["py.test", "-c setup.cfg",
      if s.bail then "--exitfirst" else "",
      if s.coverage then
        "--cov " ++ sources ++ " --cov-config setup.cfg --no-cov-on-fail" else "",
      if s.junit then "--junit-xml junit.xml" else "",
      if s.verbose then "-vvl --full-trace" else "-q",
      "-rf",
      if s.expression = "" then "" else "-k " ++ s.expression,
      " ".intercalate (s.ignored.map ("--ignore " ++ ·)),
      chosen (sources ++ " tests") s.files]

def echoed (parts : List String) : Step := .run (command parts) true false

def steps (s : Settings) : Task → List Step
  | clean => cleanSteps s.full
  | test => inRoot [.run (testCommand s) true true]
  | lint => [echoed ["flake8", chosen (targets ++ " setup.py") s.files]]
  | types => [echoed ["mypy", chosen (sources ++ " tests") s.files]]
  | format =>
    let files := chosen (targets ++ " setup.py tasks.py") s.files
    inRoot [echoed ["isort", files], echoed ["black", "-l 80", files]]
  | check => []
  | build => inRoot [echoed ["rm -rf dist"], echoed ["python setup.py sdist bdist_wheel"]]

end Task

end GraphSchema.Package
