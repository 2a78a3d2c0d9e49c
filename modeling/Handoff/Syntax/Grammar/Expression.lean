import Handoff.Syntax.Grammar.Type

/-!
# Expressions

Binary operators have five levels and associate to the left. Calls, selections, indexing and
composite literals follow an operand and are read in a loop. What stands between square brackets
before a call is read as types when it can be: `f[i]()` instantiates `f`, while `f[0]()` and
`f[i + 1]()` call an element.
-/

namespace Handoff.Syntax.Grammar

open Grammar.Parser

/-- The level of a binary operator, five binding most tightly. -/
def binaryLevel (t : Token) : Nat :=
  if t.cls != .operator then 0
  else if ["*", "/", "%", "<<", ">>", "&", "&^"].contains t.text then 5
  else if ["+", "-", "|", "^"].contains t.text then 4
  else if ["==", "!=", "<", "<=", ">", ">="].contains t.text then 3
  else if t.text == "&&" then 2
  else if t.text == "||" then 1
  else 0

/-- Operators at least as tight as `level` and their right operands. -/
def binaryRest (read : Reader) (ctx : Context) (level : Nat) (left : Draft) : Nat → Parser Draft
  | 0 => failure
  | n + 1 => do
    let t ← peek
    let found := binaryLevel t
    if found != 0 && level ≤ found && (← continues ctx) then
      let operator ← symbol t.text
      let right ← read (.binary ctx (found + 1))
      binaryRest read ctx level
        (.branch .binaryExpression
          [left.into .left, operator.into .operator, right.into .right]) n
    else return left

def binaryRule (n : Nat) (read : Reader) (ctx : Context) (level : Nat) : Parser Draft := do
  binaryRest read ctx level (← read (.unary ctx)) n

def literalElement (read : Reader) : Parser Draft :=
  branch .literalElement do
    if ← nextIs "\x7b" then return [← read .literalValue]
    return [← expression read .enclosed]

/-- A part of a composite literal, with or without a key. -/
def element (read : Reader) : Parser (List Draft) := do
  let first ← literalElement read
  if ← nextIs ":" then
    return [.branch .keyedElement [first, ← symbol ":", ← literalElement read]]
  return [first]

def literalValueRule (n : Nat) (read : Reader) : Parser Draft :=
  branch .literalValue do
    let opening ← symbol "\x7b"
    let found ← separated "\x7d" (element read) n
    return opening :: found ++ [← symbol "\x7d"]

def compositeLiteral (read : Reader) (type : Draft) : Parser Draft := do
  return .branch .compositeLiteral [type.into .type, (← read .literalValue).into .body]

/-- An argument, which may spread a collection. -/
def argument (read : Reader) : Parser (List Draft) := do
  let value ← expression read .enclosed
  if ← nextIs "..." then return [.branch .variadicArgument [value, ← symbol "..."]]
  return [value]

def argumentList (n : Nat) (read : Reader) : Parser Draft :=
  branch .argumentList do
    let opening ← symbol "("
    let found ← separated ")" (argument read) n
    return opening :: found ++ [← symbol ")"]

/-- The arguments of `new` and `make`: a type, then values. -/
def typeFirstArguments (n : Nat) (read : Reader) : Parser Draft :=
  branch .argumentList do
    let opening ← symbol "("
    let first ← type read .enclosed
    let rest ←
      if ← nextIs "," then
        let comma ← symbol ","
        pure (comma :: (← separated ")" (return [← expression read .enclosed]) n))
      else pure []
    return opening :: first :: rest ++ [← symbol ")"]

/-- The type that an expression names when a composite literal follows it. -/
def asTypeName (d : Draft) : Option Draft :=
  match d.kind, d.children with
  | .identifier, _ => some (.leaf .typeIdentifier d.span)
  | .selectorExpression, [operand, dot, name] =>
    if operand.kind = .identifier then
      some (.branch .qualifiedType
        [(Draft.leaf .packageIdentifier operand.span).into .package, dot,
         (Draft.leaf .typeIdentifier name.span).into .name])
    else none
  | _, _ => none

/-- `f[T](…)` and `G[T]{…}`. -/
def instantiated (n : Nat) (read : Reader) (ctx : Context) (operand : Draft) : Parser Draft := do
  let first ← peekAfter 1
  if first.cls == .word && expressionWords.contains first.text then failure
  let types ← typeArguments n read
  if ← continuesWith ctx "(" then
    let arguments ← argumentList n read
    return .branch .callExpression
      [operand.into .function, types.into .typeArguments, arguments.into .arguments]
  if ctx.literals && (← continuesWith ctx "\x7b") then
    match asTypeName operand with
    | some name =>
      compositeLiteral read (.branch .genericType [name.into .type, types.into .typeArguments])
    | none => failure
  else failure

/-- An expression in a slice, which may be left out before the given bracket or colon. -/
def bound? (read : Reader) (field : Field) (ends : List String) : Parser (List Draft) := do
  let t ← peek
  if ends.any t.isOperator then return []
  return [(← expression read .enclosed).into field]

/-- `x[i]`, `x[i:j]` and `x[i:j:k]`. -/
def indexed (read : Reader) (operand : Draft) : Parser Draft := do
  let opening ← symbol "["
  let start ← bound? read .start [":"]
  if ← nextIs ":" then
    let colon ← symbol ":"
    let stop ← bound? read .stop ["]", ":"]
    let capacity ←
      if ← nextIs ":" then
        pure [← symbol ":", (← expression read .enclosed).into .capacity]
      else pure []
    return .branch .sliceExpression
      (operand.into .operand :: opening :: start ++ colon :: stop ++ capacity ++ [← symbol "]"])
  match start with
  | [index] =>
    return .branch .indexExpression
      [operand.into .operand, opening, index.into .index, ← symbol "]"]
  | _ => failure

/-- `x.f` and `x.(T)`; `x.(type)` belongs to the switch it stands in. -/
def selected? (read : Reader) (operand : Draft) : Parser (Option Draft) := do
  let second ← peekAfter 1
  if second.cls == .word then
    let dot ← symbol "."
    let name ← wordAs .fieldIdentifier
    return some (.branch .selectorExpression [operand.into .operand, dot, name.into .member])
  if second.isOperator "(" then
    if (← peekAfter 2).isWord "type" then return none
    let dot ← symbol "."
    let opening ← symbol "("
    let asserted ← type read .enclosed
    return some (.branch .typeAssertionExpression
      [operand.into .operand, dot, opening, asserted.into .type, ← symbol ")"])
  failure

/-- What follows an operand, as long as the phrase goes on. -/
def postfixes (n : Nat) (read : Reader) (ctx : Context) (operand : Draft) : Nat → Parser Draft
  | 0 => failure
  | m + 1 => do
    if !(← continues ctx) then return operand
    let t ← peek
    if t.isOperator "." then
      match ← selected? read operand with
      | some longer => postfixes n read ctx longer m
      | none => return operand
    else if t.isOperator "(" then
      let arguments ← argumentList n read
      postfixes n read ctx
        (.branch .callExpression [operand.into .function, arguments.into .arguments]) m
    else if t.isOperator "[" then
      let longer ← instantiated n read ctx operand <|> indexed read operand
      postfixes n read ctx longer m
    else if t.isOperator "\x7b" && ctx.literals then
      match asTypeName operand with
      | some name => postfixes n read ctx (← compositeLiteral read name) m
      | none => return operand
    else return operand

/-- `T(x)` for a type that is no expression. -/
def conversion (read : Reader) (target : Draft) : Parser Draft := do
  let opening ← symbol "("
  let operand ← expression read .enclosed
  let comma ← if ← nextIs "," then pure [← symbol ","] else pure []
  return .branch .typeConversionExpression
    (target.into .type :: opening :: operand.into .operand :: comma ++ [← symbol ")"])

/-- Whether a composite literal of the type may follow it. -/
def hasLiterals (kind : Kind) : Bool :=
  [Kind.mapType, .sliceType, .arrayType, .implicitLengthArrayType, .structType].contains kind

/-- A type at the start of an expression: a composite literal or a conversion. -/
def typeOperand (read : Reader) : Parser Draft := do
  let found ← type read .enclosed
  if hasLiterals found.kind && (← nextIs "\x7b") then compositeLiteral read found
  else conversion read found

/-- A function literal, or a conversion to a function type. -/
def functionOperand (n : Nat) (read : Reader) : Parser Draft := do
  let word ← keyword "func"
  let parts ← signature n read .enclosed
  if ← nextIs "\x7b" then
    return .branch .funcLiteral (word :: parts ++ [(← read .block).into .body])
  conversion read (.branch .functionType (word :: parts))

def parenthesized (read : Reader) : Parser Draft :=
  branch .parenthesizedExpression do
    return [← symbol "(", ← expression read .enclosed, ← symbol ")"]

def wordKind (text : String) : Kind :=
  match text with
  | "nil" => .nilLiteral
  | "true" => .trueLiteral
  | "false" => .falseLiteral
  | "iota" => .iota
  | _ => .identifier

/-- A name, a literal word, or a call of `new` or `make`. -/
def wordOperand (n : Nat) (read : Reader) (ctx : Context) : Parser Draft := do
  let t ← peek
  let name ← nameAs (wordKind t.text)
  if (t.text == "new" || t.text == "make") && (← continuesWith ctx "(") then
    (do let arguments ← typeFirstArguments n read
        return .branch .callExpression [name.into .function, arguments.into .arguments])
      <|> pure name
  else return name

def operand (n : Nat) (read : Reader) (ctx : Context) : Parser Draft := do
  let t ← peek
  match t.cls with
  | .int => tokenIf (fun _ => true) fun _ => .intLiteral
  | .float => tokenIf (fun _ => true) fun _ => .floatLiteral
  | .imaginary => tokenIf (fun _ => true) fun _ => .imaginaryLiteral
  | .rune => tokenIf (fun _ => true) fun _ => .runeLiteral
  | .rawString | .string _ => stringLiteral
  | .word =>
    if t.isName then wordOperand n read ctx
    else if t.isWord "func" then functionOperand n read
    else typeOperand read
  | .operator =>
    if t.isOperator "(" then
      parenthesized read <|> (do conversion read (← parenthesizedType read))
    else typeOperand read
  | .stray | .finish => failure

def unaryOperators : List String :=
  ["+", "-", "!", "^", "*", "&", "<-"]

def unaryRule (n : Nat) (read : Reader) (ctx : Context) : Parser Draft := do
  let t ← peek
  let isOperator := unaryOperators.any t.isOperator
  let isChannel := t.isOperator "<-" && (← peekAfter 1).isWord "chan"
  if isOperator && !isChannel then
    let operator ← symbol t.text
    let inner ← read (.unary ctx)
    return .branch .unaryExpression [operator.into .operator, inner.into .operand]
  postfixes n read ctx (← operand n read ctx) n

/-- One or more expressions between commas. -/
def expressionList (n : Nat) (read : Reader) (ctx : Context) : Parser Draft :=
  branch .expressionList (commas ctx (expression read ctx) n)

end Handoff.Syntax.Grammar
