import Handoff.Toml.Quoted

/-!
# TOML documents

A document is a sequence of statements, each with a line end of its own: headers, and keys with
values. `Toml.parse` reads the text of a document into a table; any fault in it gives none.
-/

namespace Handoff.Toml

/-- Reads from the front of a text. -/
abbrev Scanner := StateT (List Char) Option

namespace Scanner

/-- The next character, left in place. -/
def peek : Scanner (Option Char) := do
  return (← get).head?

/-- Takes the next character if it is the given one. -/
def skip? (c : Char) : Scanner Bool := do
  match ← get with
  | d :: cs => if c = d then set cs; return true else return false
  | [] => return false

def skip (c : Char) : Scanner Unit := do
  if !(← skip? c) then failure

def takeWhile (p : Char → Bool) : Scanner (List Char) :=
  modifyGet fun cs => cs.span p

/-- Spaces and tabs. -/
def spaces : Scanner Unit :=
  modify fun cs => cs.dropWhile isSpace

/-- A text without the spaces, line breaks and comments in front. -/
def dropGaps (inComment : Bool) : List Char → List Char
  | [] => []
  | c :: cs =>
    if c = '\n' then dropGaps false cs
    else if c = '\r' && cs.head? == some '\n' then dropGaps inComment cs
    else if inComment then (if isPlainChar c then dropGaps true cs else c :: cs)
    else if isSpace c then dropGaps false cs
    else if c = '#' then dropGaps true cs
    else c :: cs

/-- Spaces, line breaks and comments. -/
def gaps : Scanner Unit :=
  modify (dropGaps false)

/-- The rest of a line: spaces, perhaps a comment, and the line break or the end of the text. -/
def lineEnd : Scanner Unit := do
  spaces
  if ← skip? '#' then let _ ← takeWhile isPlainChar
  match ← get with
  | [] => return
  | '\n' :: cs => set cs
  | '\r' :: '\n' :: cs => set cs
  | _ => failure

def isBareKeyChar (c : Char) : Bool :=
  c.isAlphanum || c == '_' || c == '-'

/-- One part of a key, bare or quoted. -/
def simpleKey : Scanner String := do
  match lineString? (← get) with
  | some (text, rest) =>
    set rest
    return String.ofList text
  | none =>
    let bare ← takeWhile isBareKeyChar
    if bare.isEmpty then failure
    return String.ofList bare

/-- The parts of a key behind the first, each behind a dot. -/
def keyTail : Nat → Scanner (List String)
  | 0 => return []
  | n + 1 => do
    spaces
    if ← skip? '.' then
      spaces
      let first ← simpleKey
      return first :: (← keyTail n)
    else return []

/-- A key: the path to its table, and its last part. -/
def key : Scanner (List String × String) := do
  let first ← simpleKey
  let parts := first :: (← keyTail (← get).length)
  match parts.getLast? with
  | some last => return (parts.dropLast, last)
  | none => failure

/-- The characters of scalars without quotes. -/
def isWordChar (c : Char) : Bool :=
  c.isAlphanum || ['_', '+', '-', '.', ':'].contains c

/-- A scalar without quotes. A space may part a date from a time. -/
def scalar : Scanner Value := do
  let word ← takeWhile isWordChar
  match ← get with
  | ' ' :: d :: cs =>
    if isDate word && d.isDigit then
      set (d :: cs)
      let time ← takeWhile isWordChar
      StateT.lift (scalar? (word ++ ' ' :: time))
    else StateT.lift (scalar? word)
  | _ => StateT.lift (scalar? word)

/-- The items of an array up to the closing bracket; a comma may follow the last. -/
def items (value : Scanner Value) : Nat → Scanner (List Value)
  | 0 => failure
  | n + 1 => do
    gaps
    if ← skip? ']' then return []
    let first ← value
    gaps
    if ← skip? ',' then return first :: (← items value n)
    skip ']'
    return [first]

/-- A key and its value. -/
def pair (value : Scanner Value) : Scanner ((List String × String) × Value) := do
  let k ← key
  spaces
  skip '='
  spaces
  return (k, ← value)

/-- The pairs of an inline table up to the closing brace; a comma may follow the last. -/
def pairs (value : Scanner Value) : Nat → Table → Scanner Table
  | 0, _ => failure
  | n + 1, t => do
    gaps
    if ← skip? '\x7d' then return t
    let ((path, last), v) ← pair value
    let t ← StateT.lift (t.define last v path)
    gaps
    if ← skip? ',' then pairs value n t
    else
      skip '\x7d'
      return t

/-- A value, nested at most `n` deep. -/
def value : Nat → Scanner Value
  | 0 => failure
  | n + 1 => do
    match string? (← get) with
    | some (text, rest) =>
      set rest
      return .string (String.ofList text)
    | none =>
      if ← skip? '[' then return .array (← items (value n) ((← get).length + 1))
      if ← skip? '\x7b' then return .table .inline (← pairs (value n) ((← get).length + 1) [])
      scalar

/-- A header behind its first bracket: whether it is doubled, and its key. -/
def header : Scanner (Bool × List String × String) := do
  let doubled ← skip? '['
  spaces
  let (path, last) ← key
  spaces
  skip ']'
  if doubled then skip ']'
  return (doubled, path, last)

/-- The statements of a document, added to `root`; `current` is the path of the last header. -/
def statements : Nat → List String → Table → Scanner Table
  | 0, _, _ => failure
  | n + 1, current, root => do
    gaps
    if (← get).isEmpty then return root
    if ← skip? '[' then
      let (doubled, path, last) ← header
      lineEnd
      let opened := if doubled then Table.addTable last else Table.openTable last
      let root ← StateT.lift (root.within opened path)
      statements n (path ++ [last]) root
    else
      let ((path, last), v) ← pair (value ((← get).length + 1))
      lineEnd
      let root ← StateT.lift (root.within (Table.define last v path) current)
      statements n current root

end Scanner

/-- A text without a byte order mark. -/
def dropMark : List Char → List Char
  | '\ufeff' :: cs => cs
  | cs => cs

/-- The table of a document. -/
def parse (text : String) : Option Table :=
  let cs := dropMark text.toList
  (Scanner.statements (cs.length + 1) [] []).run cs |>.map Prod.fst

end Handoff.Toml
