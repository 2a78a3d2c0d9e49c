import Handoff.Syntax.Draft
import Handoff.Syntax.Token

/-!
# Parsers over tokens

A parser takes drafts off the front of a token list or fails. `p <|> q` tries `q` on the same tokens
when `p` fails. A phrase is read in a context, which says whether a line feed ends it and whether a
name followed by an opening brace starts a composite literal.
-/

namespace Handoff.Syntax.Grammar

abbrev Parser := StateT (List Token) Option

structure Context where
  /-- A line feed after a complete phrase ends it. -/
  lineEnds : Bool
  /-- `T` followed by a brace is a composite literal, not a name before a block. -/
  literals : Bool
deriving DecidableEq, Repr

namespace Context

/-- In a statement list. -/
def statement : Context := ⟨true, true⟩

/-- Between brackets. -/
def enclosed : Context := ⟨false, true⟩

/-- Between a keyword such as `if` and its block. -/
def header : Context := ⟨false, false⟩

end Context

namespace Parser

def peek : Parser Token := do
  match ← get with
  | t :: _ => return t
  | [] => failure

/-- The token after the next `n`; after the last token the text has ended. -/
def peekAfter (n : Nat) : Parser Token := do
  return ((← get)[n]?).getD Token.ended

def advance : Parser Token := do
  match ← get with
  | t :: ts => set ts; return t
  | [] => failure

/-- Whether the phrase goes on with the next token. -/
def continues (ctx : Context) : Parser Bool :=
  return !ctx.lineEnds || (← peek).newline.isNone

def nextIs (text : String) : Parser Bool :=
  return (← peek).isOperator text

def nextIsWord (text : String) : Parser Bool :=
  return (← peek).isWord text

/-- Whether the phrase goes on with the given operator. -/
def continuesWith (ctx : Context) (text : String) : Parser Bool :=
  return (← continues ctx) && (← nextIs text)

def tokenIf (p : Token → Bool) (kind : Token → Kind) : Parser Draft := do
  let t ← peek
  if p t then
    let _ ← advance
    return .leaf (kind t) t.span
  else failure

/-- An operator or bracket. -/
def symbol (text : String) : Parser Draft :=
  tokenIf (Token.isOperator · text) fun t => .token t.text

def keyword (text : String) : Parser Draft :=
  tokenIf (Token.isWord · text) fun t => .token t.text

/-- A name, as a node of the given kind. -/
def nameAs (kind : Kind) : Parser Draft :=
  tokenIf Token.isName fun _ => kind

/-- Any word, as a node of the given kind: no keyword can stand here. -/
def wordAs (kind : Kind) : Parser Draft :=
  tokenIf (·.cls == .word) fun _ => kind

/-- The end of a phrase: a run of line feeds or a semicolon. -/
def terminator? : Parser (Option Draft) := do
  match ← get with
  | t :: ts =>
    match t.newline with
    | some span =>
      set ({ t with newline := none } :: ts)
      return some (.leaf (.token "\n") span)
    | none =>
      if t.isOperator ";" then
        set ts
        return some (.leaf (.token ";") t.span)
      else return none
  | [] => failure

/-- A branch over what a parser gives. -/
def branch (kind : Kind) (p : Parser (List Draft)) : Parser Draft :=
  return .branch kind (← p)

/-- Items between commas up to a closing bracket, which may follow a last comma. -/
def separated (close : String) (item : Parser (List Draft)) : Nat → Parser (List Draft)
  | 0 => failure
  | n + 1 => do
    if ← nextIs close then return []
    let found ← item
    if ← nextIs "," then
      let comma ← symbol ","
      return found ++ comma :: (← separated close item n)
    return found

/-- One or more items between commas, as long as the phrase goes on. -/
def commas (ctx : Context) (item : Parser Draft) : Nat → Parser (List Draft)
  | 0 => failure
  | n + 1 => do
    let found ← item
    if ← continuesWith ctx "," then
      let comma ← symbol ","
      return found :: comma :: (← commas ctx item n)
    return [found]

/-- Items, each followed by a terminator unless the end comes first. -/
def terminated (atEnd : Token → Bool) (item : Parser Draft) : Nat → Parser (List Draft)
  | 0 => failure
  | n + 1 => do
    if atEnd (← peek) then return []
    let found ← item
    match ← terminator? with
    | some ending => return found :: ending :: (← terminated atEnd item n)
    | none => if atEnd (← peek) then return [found] else failure

end Parser

/-- The phrases that contain one another. -/
inductive Phrase where
  | type (ctx : Context)
  /-- A type that no `|` joins to another. -/
  | typeTerm (ctx : Context)
  | expression (ctx : Context)
  /-- Operators that bind at least as tightly as the level. -/
  | binary (ctx : Context) (level : Nat)
  | unary (ctx : Context)
  | literalValue
  | block
  | statement
  | ifStatement
deriving DecidableEq, Repr

/-- How the rules read the phrases inside them. -/
abbrev Reader := Phrase → Parser Draft

end Handoff.Syntax.Grammar
