set_option autoImplicit false

namespace SprintLedger

abbrev Path := String

def splitSlashes : List Char → List (List Char)
  | [] => [[]]
  | c :: cs =>
    if c = '/' then [] :: splitSlashes cs
    else
      match splitSlashes cs with
      | [] => [[c]]
      | first :: rest => (c :: first) :: rest

namespace Path

def segments (p : Path) : List (List Char) := splitSlashes p.toList

def isAbsolute (p : Path) : Bool := p.toList.head? = some '/'

-- The second path seen from the first one. An empty second path leaves a slash at the end.
def join (dir p : Path) : Path :=
  if isAbsolute p then p
  else if dir = "" ∨ dir.toList.getLast? = some '/' then dir ++ p
  else dir ++ "/" ++ p

-- What tells two paths apart: empty segments do not, nor do dots except at the beginning.
def steps (p : Path) : Bool × List (List Char) :=
  let steps := p.segments.filter fun s => s ≠ [] && s ≠ ['.']
  (isAbsolute p, if p.segments.head? = some ['.'] then ['.'] :: steps else steps)

end Path

end SprintLedger
