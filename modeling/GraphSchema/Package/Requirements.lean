import GraphSchema.Package.Files
import GraphSchema.Text.Blank

namespace GraphSchema.Package

def isRequirement (line : List Char) : Bool :=
  match line with
  | [] => false
  | c :: _ => c != '#' && c != '-'

def requirementsOf (lines : List (List Char)) : List String :=
  ((lines.map stripBlank).filter isRequirement).map String.ofList

def fileRequirements (fs : Files) (path : String) : Except Error (List String) :=
  return requirementsOf (← fs.readLines path)

def requirements (fs : Files) (paths : List String) : Except Error (List String) :=
  return (← paths.mapM (fileRequirements fs)).flatten

end GraphSchema.Package
