import Handoff.Sort
import Handoff.Text.Split

/-!
# Paths

A path is a text, taken apart at slashes. Repeated and trailing slashes do not count, nor does a dot
unless it stands at the front. Paths are compared part by part.
-/

namespace Handoff

open Text

/-- A part of a path. -/
inductive PathPart where
  | root
  | current
  | parent
  | name (text : String)
deriving DecidableEq, Repr

namespace PathPart

/-- The order of the kinds of parts. -/
def rank : PathPart → Nat
  | .root => 0
  | .current => 1
  | .parent => 2
  | .name _ => 3

def precedes : PathPart → PathPart → Bool
  | .name a, .name b => a < b
  | a, b => a.rank < b.rank

end PathPart

namespace Path

/-- The pieces of a path between its slashes. -/
def slashed (path : String) : List String :=
  (pieces '/' path.toList).map String.ofList

def isAbsolute (path : String) : Bool :=
  path.toList.head? == some '/'

/-- Whether a piece counts; a dot does only at the front. -/
def counts (piece : String) (isFirst : Bool) : Bool :=
  piece != "" && (piece != "." || isFirst)

/-- The part that a piece is, if it counts. -/
def partOf (piece : String) (isFirst : Bool) : Option PathPart :=
  if counts piece isFirst then
    if piece = "." then some .current
    else if piece = ".." then some .parent
    else some (.name piece)
  else none

/-- The parts of a path. -/
def parts (path : String) : List PathPart :=
  let found := (slashed path).zipIdx.filterMap fun (piece, i) => partOf piece (i == 0)
  if isAbsolute path then .root :: found else found

/-- Whether a list of parts comes before or is equal to another. -/
def partsPrecede : List PathPart → List PathPart → Bool
  | [], _ => true
  | _ :: _, [] => false
  | a :: as, b :: bs => a.precedes b || (a == b && partsPrecede as bs)

/-- Whether a path comes before or is equal to another. -/
def precedes (a b : String) : Bool :=
  partsPrecede (parts a) (parts b)

/-- A list without the members that equal the one before them. -/
def dropRepeated : List String → List String
  | [] => []
  | p :: ps => p :: (dropRepeated ps).dropWhile fun q => parts q == parts p

/-- Paths in order, each once; of equal paths the first stays. -/
def arranged (paths : List String) : List String :=
  dropRepeated (sorted precedes paths)

/-- A name inside a directory. -/
def join (directory name : String) : String :=
  if directory.isEmpty || directory.toList.getLast? == some '/' then directory ++ name
  else directory ++ "/" ++ name

/-- Pieces from the back without those that do not count. -/
def dropIdle : List String → List String
  | [] => []
  | piece :: before => if counts piece before.isEmpty then piece :: before else dropIdle before

/-- The path without its last part; none if it has no part to take away. -/
def parent? (path : String) : Option String :=
  match dropIdle (slashed path).reverse with
  | [] => none
  | _ :: before =>
    let kept := (dropIdle before).reverse
    if kept.isEmpty then some (if isAbsolute path then "/" else "")
    else some ("/".intercalate kept)

end Path

end Handoff
