import Handoff.Toml.Scalar

/-!
# TOML strings

Strings in double quotes know escapes, those in single quotes do not. Tripled quotes open a string
that may run over several lines; a line break right behind them does not count.
-/

namespace Handoff.Toml

/-- The characters of comments and of strings on one line. -/
def isPlainChar (c : Char) : Bool :=
  c == '\t' || (' ' ≤ c && c != '\x7f')

def isSpace (c : Char) : Bool :=
  c == ' ' || c == '\t'

/-- The character of a code point. -/
def codePoint? (digits : List Char) : Option Char :=
  if digits.all isHexDigit then
    let n := ofDigits 16 digits
    if n.isValidChar then some (Char.ofNat n) else none
  else none

/-- The character that a letter behind a backslash stands for. -/
def escape? : Char → Option Char
  | 'b' => some '\x08'
  | 't' => some '\t'
  | 'n' => some '\n'
  | 'f' => some '\x0c'
  | 'r' => some '\r'
  | 'e' => some '\x1b'
  | '"' => some '"'
  | '\\' => some '\\'
  | _ => none

/-- Puts a character in front of the text of a string. -/
def prepend (c : Char) (read : Option (List Char × List Char)) : Option (List Char × List Char) :=
  read.map fun (text, rest) => (c :: text, rest)

/-- The end of a string in tripled quotes, behind its first quote. Up to two more quotes belong to
the text. -/
def closing? (quote : Char) : List Char → Option (List Char × List Char)
  | a :: b :: rest =>
    if a = quote ∧ b = quote then
      let more := (rest.take 2).takeWhile (· == quote)
      some (more, rest.drop more.length)
    else none
  | _ => none

/-- The text of a string in single quotes and what follows it. -/
def literalText : List Char → Option (List Char × List Char)
  | [] => none
  | c :: cs =>
    if c = '\'' then some ([], cs)
    else if isPlainChar c then prepend c (literalText cs)
    else none

/-- The text of a string in tripled single quotes and what follows it. -/
def literalLines : List Char → Option (List Char × List Char)
  | [] => none
  | c :: cs =>
    match if c = '\'' then closing? '\'' cs else none with
    | some ending => some ending
    | none =>
      if isPlainChar c || c == '\n' || (c == '\r' && cs.head? == some '\n') then
        prepend c (literalLines cs)
      else none

/-- The text of a string in double quotes and what follows it. -/
def basicText : List Char → Option (List Char × List Char)
  | [] => none
  | c :: cs =>
    if c = '"' then some ([], cs)
    else if c = '\\' then
      match cs with
      | 'x' :: a :: b :: rest => do prepend (← codePoint? [a, b]) (basicText rest)
      | 'u' :: a :: b :: c :: d :: rest => do prepend (← codePoint? [a, b, c, d]) (basicText rest)
      | 'U' :: a :: b :: c :: d :: e :: f :: g :: h :: rest => do
        prepend (← codePoint? [a, b, c, d, e, f, g, h]) (basicText rest)
      | e :: rest => do prepend (← escape? e) (basicText rest)
      | [] => none
    else if isPlainChar c then prepend c (basicText cs)
    else none

/-- Where a string in tripled double quotes stands: in its text, behind a backslash that ends a
line, or in the blanks and line breaks that such a backslash takes away. -/
inductive LineState where
  | text
  | ending
  | joining
deriving DecidableEq, Repr

/-- The text of a string in tripled double quotes and what follows it. -/
def basicLines (state : LineState) : List Char → Option (List Char × List Char)
  | [] => none
  | c :: cs =>
    let isBreak := c == '\n' || (c == '\r' && cs.head? == some '\n')
    if state = .ending then
      if c = '\n' then basicLines .joining cs
      else if isSpace c || isBreak then basicLines .ending cs
      else none
    else if state = .joining && (isSpace c || isBreak) then basicLines .joining cs
    else if c = '\\' then
      match cs with
      | 'x' :: a :: b :: rest => do prepend (← codePoint? [a, b]) (basicLines .text rest)
      | 'u' :: a :: b :: c :: d :: rest => do
        prepend (← codePoint? [a, b, c, d]) (basicLines .text rest)
      | 'U' :: a :: b :: c :: d :: e :: f :: g :: h :: rest => do
        prepend (← codePoint? [a, b, c, d, e, f, g, h]) (basicLines .text rest)
      | e :: rest =>
        match escape? e with
        | some c => prepend c (basicLines .text rest)
        | none =>
          if e = '\n' then basicLines .joining rest
          else if isSpace e || e = '\r' then basicLines .ending rest
          else none
      | [] => none
    else
      match if c = '"' then closing? '"' cs else none with
      | some ending => some ending
      | none => if isPlainChar c || isBreak then prepend c (basicLines .text cs) else none

/-- A text without the line break at its start. -/
def dropBreak : List Char → List Char
  | '\n' :: cs => cs
  | '\r' :: '\n' :: cs => cs
  | cs => cs

/-- A string on one line, and what follows it. -/
def lineString? : List Char → Option (List Char × List Char)
  | '"' :: cs => basicText cs
  | '\'' :: cs => literalText cs
  | _ => none

/-- A string, and what follows it. -/
def string? : List Char → Option (List Char × List Char)
  | '"' :: '"' :: '"' :: cs => basicLines .text (dropBreak cs)
  | '\'' :: '\'' :: '\'' :: cs => literalLines (dropBreak cs)
  | cs => lineString? cs

end Handoff.Toml
