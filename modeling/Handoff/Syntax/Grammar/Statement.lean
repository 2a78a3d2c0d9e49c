import Handoff.Syntax.Grammar.Expression

/-!
# Statements and the declarations among them

A statement that starts with an expression is told apart by what follows its expressions: `:=`, an
assignment operator, `<-`, `++`, `--`, or nothing.
-/

namespace Handoff.Syntax.Grammar

open Grammar.Parser

def assignmentOperators : List String :=
  ["=", "*=", "/=", "%=", "<<=", ">>=", "&=", "&^=", "+=", "-=", "|=", "^="]

/-- Puts the parsed expressions of a statement under an expression list. -/
def listOf (expressions : List Draft) : Draft :=
  .branch .expressionList expressions

/-- The statement that some expressions start. -/
def simpleRest (n : Nat) (read : Reader) (ctx : Context) (found : List Draft) : Parser Draft := do
  let left := (listOf found).into .left
  let t ← peek
  if ← continuesWith ctx ":=" then
    let mark ← symbol ":="
    return .branch .shortVarDeclaration
      [left, mark, (← expressionList n read ctx).into .right]
  if assignmentOperators.any t.isOperator && (← continues ctx) then
    let mark ← symbol t.text
    return .branch .assignmentStatement
      [left, mark.into .operator, (← expressionList n read ctx).into .right]
  match found with
  | [single] =>
    if ← continuesWith ctx "<-" then
      let arrow ← symbol "<-"
      return .branch .sendStatement
        [single.into .channel, arrow, (← expression read ctx).into .value]
    else if ← continuesWith ctx "++" then
      return .branch .incStatement [single, ← symbol "++"]
    else if ← continuesWith ctx "--" then
      return .branch .decStatement [single, ← symbol "--"]
    else return .branch .expressionStatement [single]
  | _ => failure

def simpleStatement (n : Nat) (read : Reader) (ctx : Context) : Parser Draft := do
  simpleRest n read ctx (← commas ctx (expression read ctx) n)

/-- The names of a value spec; its commas stand in the same field. -/
def specNames (n : Nat) (ctx : Context) : Parser (List Draft) := do
  return (← commas ctx (nameAs .identifier) n).map (Draft.into .name)

def specValues (n : Nat) (read : Reader) : Parser (List Draft) := do
  let mark ← symbol "="
  return [mark, (← expressionList n read .statement).into .value]

def varSpec (n : Nat) (read : Reader) : Parser Draft :=
  branch .varSpec do
    let names ← specNames n .enclosed
    if ← nextIs "=" then return names ++ (← specValues n read)
    let declared ← type read .statement
    let values ← if ← continuesWith .statement "=" then specValues n read else pure []
    return names ++ declared.into .type :: values

def constSpec (n : Nat) (read : Reader) : Parser Draft :=
  branch .constSpec do
    let names ← specNames n .statement
    if !(← continues .statement) then return names
    if ← nextIs "=" then return names ++ (← specValues n read)
    if startsType (← peek) || (← nextIs "(") then
      let declared ← type read .statement
      return names ++ declared.into .type :: (← specValues n read)
    return names

def typeSpec (n : Nat) (read : Reader) : Parser Draft := do
  let name ← nameAs .typeIdentifier
  if ← nextIs "=" then
    return .branch .typeAlias
      [name.into .name, ← symbol "=", (← type read .statement).into .type]
  let plain : Parser Draft := do
    return .branch .typeSpec [name.into .name, (← type read .statement).into .type]
  let generic : Parser Draft := do
    let parameters ← typeParameterList n read
    return .branch .typeSpec
      [name.into .name, parameters.into .typeParameters, (← type read .statement).into .type]
  plain <|> generic

/-- Specs in parentheses, each with a terminator after it. -/
def groupedSpecs (item : Parser Draft) : Nat → Parser (List Draft)
  | 0 => failure
  | n + 1 => do
    if ← nextIs ")" then return []
    let spec ← item
    match ← terminator? with
    | some ending => return spec :: ending :: (← groupedSpecs item n)
    | none => failure

/-- A declaration with one spec or a group of them. -/
def declaration (n : Nat) (kind : Kind) (word : String) (item : Parser Draft) : Parser Draft :=
  branch kind do
    let word ← keyword word
    if ← nextIs "(" then
      let opening ← symbol "("
      let specs ← groupedSpecs item n
      return word :: opening :: specs ++ [← symbol ")"]
    return [word, ← item]

def blockRule (n : Nat) (read : Reader) : Parser Draft :=
  branch .block do
    let opening ← symbol "\x7b"
    let found ← terminated (Token.isOperator · "\x7d") (read .statement) n
    return opening :: found ++ [← symbol "\x7d"]

/-- What ends the statements of a case clause. -/
def endsClause (t : Token) : Bool :=
  t.isOperator "\x7d" || t.isWord "case" || t.isWord "default"

def clauseBody (n : Nat) (read : Reader) : Parser (List Draft) :=
  terminated endsClause (read .statement) n

def defaultCase (n : Nat) (read : Reader) : Parser Draft :=
  branch .defaultCase do
    let word ← keyword "default"
    let colon ← symbol ":"
    return word :: colon :: (← clauseBody n read)

def expressionCase (n : Nat) (read : Reader) : Parser Draft :=
  branch .expressionCase do
    let word ← keyword "case"
    let value ← expressionList n read .enclosed
    let colon ← symbol ":"
    return word :: value.into .value :: colon :: (← clauseBody n read)

def typeCase (n : Nat) (read : Reader) : Parser Draft :=
  branch .typeCase do
    let word ← keyword "case"
    let types ← commas .enclosed (type read .enclosed) n
    let colon ← symbol ":"
    return word :: types.map (Draft.into .type) ++ colon :: (← clauseBody n read)

/-- The communication of a select case: a send, or a receive with or without targets. -/
def communication (n : Nat) (read : Reader) : Parser Draft := do
  let found ← commas .enclosed (expression read .enclosed) n
  let t ← peek
  if t.isOperator ":=" || t.isOperator "=" then
    let mark ← symbol t.text
    return .branch .receiveStatement
      [(listOf found).into .left, mark, (← expression read .enclosed).into .right]
  match found with
  | [single] =>
    if t.isOperator "<-" then
      let arrow ← symbol "<-"
      return .branch .sendStatement
        [single.into .channel, arrow, (← expression read .enclosed).into .value]
    return .branch .receiveStatement [single.into .right]
  | _ => failure

def communicationCase (n : Nat) (read : Reader) : Parser Draft :=
  branch .communicationCase do
    let word ← keyword "case"
    let found ← communication n read
    let colon ← symbol ":"
    return word :: found.into .communication :: colon :: (← clauseBody n read)

/-- The clauses between the braces of a switch or select. -/
def clauses (n : Nat) (read : Reader) (clause : Parser Draft) : Nat → Parser (List Draft)
  | 0 => failure
  | m + 1 => do
    if ← nextIs "\x7d" then return []
    let found ← if ← nextIsWord "default" then defaultCase n read else clause
    return found :: (← clauses n read clause m)

def clauseBlock (n : Nat) (read : Reader) (clause : Parser Draft) : Parser (List Draft) := do
  let opening ← symbol "\x7b"
  let found ← clauses n read clause n
  return opening :: found ++ [← symbol "\x7d"]

/-- Whether `.(type)` follows. -/
def atTypeGuard : Parser Bool := do
  let t ← peek
  if !t.isOperator "." then return false
  return (← peekAfter 1).isOperator "(" && (← peekAfter 2).isWord "type"

/-- `.(type)` and the clauses of a type switch. -/
def typeSwitchRest (n : Nat) (read : Reader) (start : List Draft) : Parser Draft := do
  let guard := [← symbol ".", ← symbol "(", ← keyword "type", ← symbol ")"]
  return .branch .typeSwitchStatement
    (start ++ guard ++ (← clauseBlock n read (typeCase n read)))

/-- The rest of a switch after `start`, the keyword and an initializer that may precede its value.
The initializer is looked for only once. -/
def switchRest (n : Nat) (read : Reader) (start : List Draft) (mayInitialize : Bool) :
    Nat → Parser Draft
  | 0 => failure
  | m + 1 => do
    let finish (value : List Draft) : Parser Draft := do
      return .branch .expressionSwitchStatement
        (start ++ value ++ (← clauseBlock n read (expressionCase n read)))
    if ← nextIs "\x7b" then return ← finish []
    let ctx := Context.header
    let found ← commas ctx (expression read ctx) n
    if ← atTypeGuard then
      match found with
      | [value] => return ← typeSwitchRest n read (start ++ [value.into .value])
      | _ => failure
    let statement ←
      if ← nextIs ":=" then
        let mark ← symbol ":="
        let right ← commas ctx (expression read ctx) n
        if ← atTypeGuard then
          match right with
          | [value] =>
            return ← typeSwitchRest n read
              (start ++ [(listOf found).into .guardAlias, mark, value.into .value])
          | _ => failure
        pure (.branch .shortVarDeclaration
          [(listOf found).into .left, mark, (listOf right).into .right])
      else simpleRest n read ctx found
    if mayInitialize && (← nextIs ";") then
      let ending ← symbol ";"
      switchRest n read (start ++ [statement.into .initializer, ending]) false m
    else
      match statement.kind, statement.children with
      | .expressionStatement, [value] => finish [value.into .value]
      | _, _ => failure

def switchStatement (n : Nat) (read : Reader) : Parser Draft := do
  switchRest n read [← keyword "switch"] true 2

def selectStatement (n : Nat) (read : Reader) : Parser Draft :=
  branch .selectStatement do
    let word ← keyword "select"
    return word :: (← clauseBlock n read (communicationCase n read))

/-- The expression that an expression statement consists of. -/
def soleExpression (statement : Draft) : Parser Draft :=
  match statement.kind, statement.children with
  | .expressionStatement, [value] => return value
  | _, _ => failure

def ifRule (n : Nat) (read : Reader) : Parser Draft :=
  branch .ifStatement do
    let word ← keyword "if"
    let first ← simpleStatement n read .header
    let head ←
      if ← nextIs ";" then
        let ending ← symbol ";"
        let condition ← expression read .header
        pure [first.into .initializer, ending, condition.into .condition]
      else pure [(← soleExpression first).into .condition]
    let consequence ← read .block
    let rest ←
      if (← nextIsWord "else") && (← continues .statement) then
        let word ← keyword "else"
        let alternative ← if ← nextIsWord "if" then read .ifStatement else read .block
        pure [word, alternative.into .alternative]
      else pure []
    return word :: head ++ consequence.into .consequence :: rest

/-- The part of a three-part clause after its initializer. -/
def forClauseRest (n : Nat) (read : Reader) (start : List Draft) : Parser Draft := do
  let first ← symbol ";"
  let condition ←
    if ← nextIs ";" then pure [] else pure [(← expression read .header).into .condition]
  let second ← symbol ";"
  let update ←
    if ← nextIs "\x7b" then pure [] else pure [(← simpleStatement n read .header).into .update]
  return .branch .forClause (start ++ first :: condition ++ second :: update)

/-- `range` and its operand, after the targets. -/
def rangeRest (read : Reader) (start : List Draft) : Parser Draft := do
  let word ← keyword "range"
  return .branch .rangeClause (start ++ [word, (← expression read .header).into .right])

/-- What stands between `for` and its block. -/
def forHeader (n : Nat) (read : Reader) : Parser (List Draft) := do
  if ← nextIs "\x7b" then return []
  if ← nextIsWord "range" then return [← rangeRest read []]
  if ← nextIs ";" then return [← forClauseRest n read []]
  let ctx := Context.header
  let found ← commas ctx (expression read ctx) n
  if ((← nextIs ":=") || (← nextIs "=")) && (← peekAfter 1).isWord "range" then
    let mark ← symbol (← peek).text
    return [← rangeRest read [(listOf found).into .left, mark]]
  let statement ← simpleRest n read ctx found
  if ← nextIs ";" then return [← forClauseRest n read [statement.into .initializer]]
  return [← soleExpression statement]

def forStatement (n : Nat) (read : Reader) : Parser Draft :=
  branch .forStatement do
    let word ← keyword "for"
    let header ← forHeader n read
    return word :: header ++ [(← read .block).into .body]

/-- Whether a statement goes on before its terminator or the end of its list. -/
def hasOperand : Parser Bool := do
  let t ← peek
  return (← continues .statement) && !t.isOperator ";" && !endsClause t && t.cls != .finish

def returnStatement (n : Nat) (read : Reader) : Parser Draft :=
  branch .returnStatement do
    let word ← keyword "return"
    if ← hasOperand then return [word, ← expressionList n read .statement]
    return [word]

/-- A jump with a label that may be left out. -/
def jump (kind : Kind) (word : String) : Parser Draft :=
  branch kind do
    let word ← keyword word
    if (← peek).isName && (← continues .statement) then return [word, ← nameAs .labelName]
    return [word]

def gotoStatement : Parser Draft :=
  branch .gotoStatement do
    return [← keyword "goto", ← nameAs .labelName]

def spawned (read : Reader) (kind : Kind) (word : String) : Parser Draft :=
  branch kind do
    return [← keyword word, ← expression read .statement]

/-- A label and the statement it marks; the last label of a list may mark none. -/
def labeledStatement (read : Reader) : Parser Draft :=
  branch .labeledStatement do
    let label ← nameAs .labelName
    let colon ← symbol ":"
    if endsClause (← peek) then return [label.into .label, colon]
    return [label.into .label, colon, ← read .statement]

def statementRule (n : Nat) (read : Reader) : Parser Draft := do
  let t ← peek
  if t.isOperator ";" then tokenIf (fun _ => true) fun _ => .emptyStatement
  else if t.isOperator "\x7b" then read .block
  else if t.isName && (← peekAfter 1).isOperator ":" then labeledStatement read
  else if t.cls != .word then simpleStatement n read .statement
  else
    match t.text with
    | "var" => declaration n .varDeclaration "var" (varSpec n read)
    | "const" => declaration n .constDeclaration "const" (constSpec n read)
    | "type" => declaration n .typeDeclaration "type" (typeSpec n read)
    | "return" => returnStatement n read
    | "go" => spawned read .goStatement "go"
    | "defer" => spawned read .deferStatement "defer"
    | "if" => read .ifStatement
    | "for" => forStatement n read
    | "switch" => switchStatement n read
    | "select" => selectStatement n read
    | "fallthrough" => tokenIf (fun _ => true) fun _ => .fallthroughStatement
    | "break" => jump .breakStatement "break"
    | "continue" => jump .continueStatement "continue"
    | "goto" => gotoStatement
    | _ => simpleStatement n read .statement

end Handoff.Syntax.Grammar
