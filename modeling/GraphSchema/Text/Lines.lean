namespace GraphSchema.Lines

def unify : List Char → List Char
  | [] => []
  | '\r' :: '\n' :: cs => '\n' :: unify cs
  | c :: cs => (if c = '\r' then '\n' else c) :: unify cs

def split : List Char → List (List Char)
  | [] => []
  | c :: cs =>
    if c = '\n' then [c] :: split cs
    else
      match split cs with
      | [] => [[c]]
      | l :: ls => (c :: l) :: ls

end GraphSchema.Lines
