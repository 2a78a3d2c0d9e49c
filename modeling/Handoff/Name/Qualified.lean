import Handoff.Name.Package
import Handoff.Text.Alphabetic
import Handoff.Text.Blank

/-!
# Package-qualified names

Configuration names functions, methods and types as `Func`, `pkg/path.Func` or
`pkg/path.Type.Method`. `QualifiedName.parse` reads such a text, `QualifiedName.display` writes it
with the full import path and `QualifiedName.label` with the short package name that messages use.
-/

namespace Handoff

open Text

structure QualifiedName where
  /-- The import path; `none` for a bare name. -/
  package : Option String
  /-- The receiver type of a method. -/
  receiver : Option String
  name : String
deriving DecidableEq, Repr

namespace QualifiedName

def function (package name : String) : QualifiedName :=
  ⟨some package, none, name⟩

def method (package receiver name : String) : QualifiedName :=
  ⟨some package, some receiver, name⟩

/-- A name of the file's own package. -/
def bare (name : String) : QualifiedName :=
  ⟨none, none, name⟩

/-- A letter or underscore, then letters, digits and underscores. -/
def isIdentifier : List Char → Bool
  | [] => false
  | c :: cs => (isAlphabetic c || c == '_') && cs.all fun d => isAlphanumeric d || d == '_'

/-- A receiver may be written `(*T)`: opening brackets, then stars, then closing brackets go. -/
def trimReceiver (cs : List Char) : List Char :=
  (((cs.dropWhile (· == '(')).dropWhile (· == '*')).reverse.dropWhile (· == ')')).reverse

/-- The path up to and with the last slash, and the dotted parts after it. A part `vN` after the
first one belongs to the package element. -/
def parts (cs : List Char) : List Char × List (List Char) :=
  let (path, last) :=
    match splitLast '/' cs with
    | some (before, after) => (before ++ ['/'], after)
    | none => ([], cs)
  match pieces '.' last with
  | first :: second :: rest =>
    if !rest.isEmpty && Package.isMajorVersion second then (path, (first ++ '.' :: second) :: rest)
    else (path, first :: second :: rest)
  | few => (path, few)

/-- A package element may not be missing. -/
def isPackagePath (cs : List Char) : Bool :=
  !cs.isEmpty && cs.getLast? != some '/'

/-- Reads a text that is already trimmed. -/
def ofChars (cs : List Char) : Option QualifiedName :=
  match parts cs with
  | ([], [name]) => if isIdentifier name then some (bare (String.ofList name)) else none
  | (path, [element, name]) =>
    if isIdentifier name && isPackagePath (path ++ element) then
      some (function (String.ofList (path ++ element)) (String.ofList name))
    else none
  | (path, [element, receiver, name]) =>
    if isIdentifier name && isIdentifier (trimReceiver receiver) && isPackagePath
        (path ++ element) then
      some (method (String.ofList (path ++ element)) (String.ofList (trimReceiver receiver))
        (String.ofList name))
    else none
  | _ => none

/-- The name that a text stands for; `none` when it is malformed. -/
def parse (text : String) : Option QualifiedName :=
  ofChars (trim text.toList)

/-- The parts that are present, each but the name followed by a dot. -/
def dotted (package receiver : Option String) (name : String) : String :=
  (package.map (· ++ ".")).getD "" ++ (receiver.map (· ++ ".")).getD "" ++ name

/-- The name with its full import path. -/
def display (q : QualifiedName) : String :=
  dotted q.package q.receiver q.name

/-- The name with the short package name, as messages show it. -/
def label (q : QualifiedName) : String :=
  dotted (q.package.map defaultPackageName) q.receiver q.name

end QualifiedName

end Handoff
