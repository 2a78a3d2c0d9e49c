import Handoff.Syntax.Grammar.Statement

/-!
# Files

A file is a list of declarations and statements, each with a terminator after it. The rules are tied
into one recursive reader whose depth is bounded by the number of tokens. A file that stops making
sense keeps what was read so far; the rest is one error node.
-/

namespace Handoff.Syntax.Grammar

open Grammar.Parser

def rule (n : Nat) (read : Reader) : Phrase → Parser Draft
  | .type ctx => typeRule n read ctx
  | .typeTerm ctx => typeTerm n read ctx
  | .expression ctx => read (.binary ctx 1)
  | .binary ctx level => binaryRule n read ctx level
  | .unary ctx => unaryRule n read ctx
  | .literalValue => literalValueRule n read
  | .block => blockRule n read
  | .statement => statementRule n read
  | .ifStatement => ifRule n read

/-- Reads a phrase that nests at most `n` rules deep. -/
def phrase : Nat → Reader
  | 0, _ => failure
  | n + 1, p => rule n (phrase n) p

def packageClause : Parser Draft :=
  branch .packageClause do
    return [← keyword "package", ← nameAs .packageIdentifier]

def importName : Parser (List Draft) := do
  let t ← peek
  if isString t then return []
  let name ←
    if t.isOperator "." then tokenIf (fun _ => true) fun _ => .dot
    else if t.isWord "_" then tokenIf (fun _ => true) fun _ => .blankIdentifier
    else nameAs .packageIdentifier
  return [name.into .name]

def importSpec : Parser Draft :=
  branch .importSpec do
    let name ← importName
    return name ++ [(← stringLiteral).into .path]

def importDeclaration (n : Nat) : Parser Draft :=
  branch .importDeclaration do
    let word ← keyword "import"
    if ← nextIs "(" then
      let specs ← branch .importSpecList do
        let opening ← symbol "("
        let found ← terminated (Token.isOperator · ")") importSpec n
        return opening :: found ++ [← symbol ")"]
      return [word, specs]
    return [word, ← importSpec]

/-- The body of a function, when it has one. -/
def body? (read : Reader) : Parser (List Draft) := do
  if ← continuesWith .statement "\x7b" then return [(← read .block).into .body]
  return []

def functionDeclaration (n : Nat) (read : Reader) : Parser Draft :=
  branch .functionDeclaration do
    let word ← keyword "func"
    let name ← nameAs .identifier
    let generic ←
      if ← nextIs "[" then pure [(← typeParameterList n read).into .typeParameters] else pure []
    let parts ← signature n read .statement
    return word :: name.into .name :: generic ++ parts ++ (← body? read)

def methodDeclaration (n : Nat) (read : Reader) : Parser Draft :=
  branch .methodDeclaration do
    let word ← keyword "func"
    let receiver ← parameterList n read
    let name ← nameAs .fieldIdentifier
    let parts ← signature n read .statement
    return word :: receiver.into .receiver :: name.into .name :: parts ++ (← body? read)

/-- A declaration or statement of a file. -/
def item (n : Nat) (read : Reader) : Parser Draft := do
  let t ← peek
  if t.isWord "package" then packageClause
  else if t.isWord "import" then importDeclaration n
  else if t.isWord "func" then
    functionDeclaration n read <|> methodDeclaration n read <|> read .statement
  else read .statement

/-- An item and its terminator; at the end of the text none is needed. -/
def terminatedItem (n : Nat) (read : Reader) : Parser (List Draft) := do
  let found ← item n read
  match ← terminator? with
  | some ending => return [found, ending]
  | none => if (← peek).cls == .finish then return [found] else failure

/-- What is left of a file that could not be read: one error node over its tokens. -/
def leftOver (tokens : List Token) : List Draft :=
  match tokens.filter fun t => t.cls != .finish with
  | [] => []
  | t :: ts => [.leaf .error (ts.foldl (fun span u => span.hull u.span) t.span)]

/-- The items of a file. -/
def items (n : Nat) (read : Reader) : Nat → List Token → List Draft
  | 0, tokens => leftOver tokens
  | m + 1, tokens =>
    match tokens with
    | [] => []
    | t :: _ =>
      if t.cls == .finish then []
      else
        match terminatedItem n read tokens with
        | some (found, rest) => found ++ items n read m rest
        | none => leftOver tokens

/-- How deep rules can nest over so many tokens. -/
def depthFor (tokens : List Token) : Nat :=
  16 * (tokens.length + 1)

/-- The file that a text holds, before its comments are put in. -/
def fileItems (tokens : List Token) : List Draft :=
  let n := depthFor tokens
  items n (phrase n) (tokens.length + 1) tokens

end Handoff.Syntax.Grammar

namespace Handoff.Syntax

/-- The syntax tree of a text. An empty file stands at the end of its text. -/
def parse (source : String) : Node :=
  let scan := Scan.ofText source
  let comments := scan.comments.map (Draft.leaf .comment)
  let found := Grammar.fileItems scan.tokens
  let span :=
    match found, comments, scan.tokens.getLast? with
    | [], [], some last => last.span
    | [], _, _ => Draft.cover comments
    | _, _, _ => Draft.cover found
  let file : Draft := ⟨.sourceFile, none, span, found⟩
  (Draft.finish source 0 (comments.foldl (fun file c => c.insertInto file) file)).1

end Handoff.Syntax
