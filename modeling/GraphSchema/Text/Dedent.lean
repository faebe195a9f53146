namespace GraphSchema

namespace Dedent

def isIndent (c : Char) : Bool := c == ' ' || c == '\t'

def splitLines : List Char → List (List Char)
  | [] => [[]]
  | c :: cs =>
    if c = '\n' then [] :: splitLines cs
    else
      match splitLines cs with
      | [] => [[c]]
      | l :: ls => (c :: l) :: ls

def joinLines : List (List Char) → List Char
  | [] => []
  | [l] => l
  | l :: ls => l ++ '\n' :: joinLines ls

def clear (l : List Char) : List Char := if l.all isIndent then [] else l

def commonPrefix : List Char → List Char → List Char
  | a :: as, b :: bs => if a = b then a :: commonPrefix as bs else []
  | _, _ => []

def margin (ls : List (List Char)) : List Char :=
  match (ls.filter (! ·.isEmpty)).map (·.takeWhile isIndent) with
  | [] => []
  | m :: ms => ms.foldl commonPrefix m

def strip (m l : List Char) : List Char := if m.isPrefixOf l then l.drop m.length else l

def trim (cs : List Char) : List Char :=
  ((cs.dropWhile (· == '\n')).reverse.dropWhile (· == '\n')).reverse

end Dedent

open Dedent in
def dedent (s : String) : String :=
  let ls := (splitLines s.toList).map clear
  String.ofList (trim (joinLines (ls.map (strip (margin ls)))))

end GraphSchema
