import Handoff.Syntax.Grammar.Parser

/-!
# Types, parameter lists and signatures

In a parameter list, names and types look alike: `a, b T` declares two names, while names without a
type after them are themselves the types of unnamed parameters. The list is therefore read entry by
entry and grouped afterwards. One declaration takes at most nine names.
-/

namespace Handoff.Syntax.Grammar

open Grammar.Parser

/-- An entry of a parameter list, before names and types are told apart. -/
inductive Entry where
  /-- A single word: a name if a named entry ends its run, else a type. -/
  | word (span : Span)
  | named (name type : Draft)
  | unnamed (type : Draft)
  | variadic (parts : List Draft)

/-- A parameter that is a type only. -/
def unnamedParameter (type : Draft) : Draft :=
  .branch .parameterDeclaration [type.into .type]

def wordParameter (entry : Span × List Draft) : List Draft :=
  unnamedParameter (.leaf .typeIdentifier entry.1) :: entry.2

def nameInList (entry : Span × List Draft) : List Draft :=
  (Draft.leaf .identifier entry.1).into .name :: entry.2

/-- How many names one declaration takes. -/
def mostNames : Nat := 9

/-- A run of words that a named entry ends: the last words are names, those too far ahead are
types. -/
def joined (words : List (Span × List Draft)) (name type : Draft) : List Draft :=
  let (types, names) := words.splitAt (words.length + 1 - mostNames)
  types.flatMap wordParameter ++
    [.branch .parameterDeclaration
      (names.flatMap nameInList ++ [name.into .name, type.into .type])]

/-- Joins words with the named entry that ends their run. `words` is the open run; each entry comes
with the comma after it, if there is one. -/
def declarations (words : List (Span × List Draft)) : List (Entry × List Draft) → List Draft
  | [] => words.flatMap wordParameter
  | (.word span, comma) :: entries => declarations (words ++ [(span, comma)]) entries
  | (.named name type, comma) :: entries =>
    joined words name type ++ comma ++ declarations [] entries
  | (.unnamed type, comma) :: entries =>
    words.flatMap wordParameter ++ unnamedParameter type :: comma ++ declarations [] entries
  | (.variadic parts, comma) :: entries =>
    words.flatMap wordParameter ++ .branch .variadicParameterDeclaration parts :: comma
      ++ declarations [] entries

def type (read : Reader) (ctx : Context) : Parser Draft := read (.type ctx)

def expression (read : Reader) (ctx : Context) : Parser Draft := read (.expression ctx)

def variadicType (read : Reader) : Parser (List Draft) := do
  return [← symbol "...", (← type read .enclosed).into .type]

def entry (read : Reader) (close : String) : Parser Entry := do
  let first ← peek
  if first.isOperator "..." then return .variadic (← variadicType read)
  if !first.isName then return .unnamed (← type read .enclosed)
  let second ← peekAfter 1
  if second.isOperator "," || second.isOperator close then
    return .word (← nameAs .identifier).span
  if second.isOperator "..." then
    let name ← nameAs .identifier
    return .variadic (name.into .name :: (← variadicType read))
  let named : Parser Entry := do
    let name ← nameAs .identifier
    return .named name (← type read .enclosed)
  let unnamed : Parser Entry := return .unnamed (← type read .enclosed)
  if second.isOperator "." then unnamed else named <|> unnamed

/-- The entries up to the closing bracket, each with the comma after it. -/
def entries (read : Reader) (close : String) : Nat → Parser (List (Entry × List Draft))
  | 0 => failure
  | n + 1 => do
    if ← nextIs close then return []
    let found ← entry read close
    if ← nextIs "," then
      let comma ← symbol ","
      return (found, [comma]) :: (← entries read close n)
    return [(found, [])]

def parameterList (n : Nat) (read : Reader) : Parser Draft :=
  branch .parameterList do
    let opening ← symbol "("
    let found ← entries read ")" n
    return opening :: declarations [] found ++ [← symbol ")"]

def typeParameterList (n : Nat) (read : Reader) : Parser Draft :=
  branch .typeParameterList do
    let opening ← symbol "["
    let found ← entries read "]" n
    return opening :: declarations [] found ++ [← symbol "]"]

/-- Whether a token can start a type that is not in parentheses. -/
def startsType (t : Token) : Bool :=
  t.isName || ["func", "struct", "interface", "map", "chan"].any t.isWord
    || ["*", "[", "<-", "~"].any t.isOperator

/-- The result of a signature, when there is one. -/
def result? (n : Nat) (read : Reader) (ctx : Context) : Parser (List Draft) := do
  if !(← continues ctx) then return []
  let t ← peek
  if t.isOperator "(" then return [(← parameterList n read).into .result]
  if startsType t then return [(← read (.typeTerm ctx)).into .result]
  return []

/-- Parameters and result. -/
def signature (n : Nat) (read : Reader) (ctx : Context) : Parser (List Draft) := do
  let parameters ← parameterList n read
  return parameters.into .parameters :: (← result? n read ctx)

/-- Words that are literals or built-in functions where an expression may stand. -/
def expressionWords : List String :=
  ["nil", "true", "false", "iota", "new", "make"]

def typeArguments (n : Nat) (read : Reader) : Parser Draft :=
  branch .typeArguments do
    let opening ← symbol "["
    if ← nextIs "]" then failure
    let found ← separated "]" (return [← type read .enclosed]) n
    return opening :: found ++ [← symbol "]"]

/-- A type name, qualified or not, with or without type arguments. -/
def namedType (n : Nat) (read : Reader) (ctx : Context) : Parser Draft := do
  let name : Draft ←
    if (← peekAfter 1).isOperator "." && (← peekAfter 2).cls == .word then
      branch .qualifiedType do
        return [(← nameAs .packageIdentifier).into .package, ← symbol ".",
          (← wordAs .typeIdentifier).into .name]
    else nameAs .typeIdentifier
  if ← continuesWith ctx "[" then
    return .branch .genericType [name.into .type, (← typeArguments n read).into .typeArguments]
  return name

def string (t : Token) : Draft :=
  match t.cls with
  | .string escapes =>
    let opening : Span := ⟨t.span.start, t.span.start.advance '"'⟩
    let last := t.span.stop
    let closing : Span := ⟨⟨last.byte - 1, last.row, last.column - 1⟩, last⟩
    .branch .interpretedStringLiteral
      (.leaf (.token "\"") opening :: escapes.map (.leaf .escapeSequence)
        ++ [.leaf (.token "\"") closing])
  | _ => .leaf .rawStringLiteral t.span

def isString (t : Token) : Bool :=
  match t.cls with
  | .string _ | .rawString => true
  | _ => false

def stringLiteral : Parser Draft := do
  let t ← peek
  if isString t then
    let _ ← advance
    return string t
  else failure

/-- A type that a struct embeds: a name, perhaps behind a star. -/
def embeddedField (n : Nat) (read : Reader) : Parser (List Draft) := do
  let star ← if ← nextIs "*" then pure [← symbol "*"] else pure []
  return star ++ [(← namedType n read .statement).into .type]

def namedFields (n : Nat) (read : Reader) : Parser (List Draft) := do
  let names ← commas .enclosed (return (← nameAs .fieldIdentifier).into .name) n
  if !(← continues .statement) then failure
  return names ++ [(← type read .statement).into .type]

def fieldDeclaration (n : Nat) (read : Reader) : Parser Draft :=
  branch .fieldDeclaration do
    let found ← namedFields n read <|> embeddedField n read
    let tag ←
      if isString (← peek) && (← continues .statement) then
        pure [(← stringLiteral).into .tag]
      else pure []
    return found ++ tag

def fieldDeclarationList (n : Nat) (read : Reader) : Parser Draft :=
  branch .fieldDeclarationList do
    let opening ← symbol "\x7b"
    let found ← terminated (Token.isOperator · "\x7d") (fieldDeclaration n read) n
    return opening :: found ++ [← symbol "\x7d"]

def structType (n : Nat) (read : Reader) : Parser Draft :=
  branch .structType do
    return [← keyword "struct", ← fieldDeclarationList n read]

def structTerm (n : Nat) (read : Reader) : Parser Draft :=
  branch .structTerm do
    let mark ←
      if ← nextIs "~" then pure [← symbol "~"]
      else if ← nextIs "*" then pure [← symbol "*"]
      else pure []
    return mark ++ [← structType n read]

def structElem (n : Nat) (read : Reader) : Nat → Parser (List Draft)
  | 0 => failure
  | m + 1 => do
    let term ← structTerm n read
    if ← continuesWith .statement "|" then
      return term :: (← symbol "|") :: (← structElem n read m)
    return [term]

def methodSpec (n : Nat) (read : Reader) : Parser Draft :=
  branch .methodSpec do
    let name ← nameAs .fieldIdentifier
    return name.into .name :: (← signature n read .statement)

def interfaceElement (n : Nat) (read : Reader) : Parser Draft := do
  if (← peek).isName && (← peekAfter 1).isOperator "(" then methodSpec n read
  else
    branch .structElem (structElem n read n) <|>
      branch .constraintElem (return [← type read .statement])

def interfaceType (n : Nat) (read : Reader) : Parser Draft :=
  branch .interfaceType do
    let word ← keyword "interface"
    let opening ← symbol "\x7b"
    let found ← terminated (Token.isOperator · "\x7d") (interfaceElement n read) n
    return word :: opening :: found ++ [← symbol "\x7d"]

/-- Slices, arrays and arrays whose length the elements give. -/
def sequenceType (read : Reader) (ctx : Context) : Parser Draft := do
  let opening ← symbol "["
  if ← nextIs "]" then
    let closing ← symbol "]"
    return .branch .sliceType [opening, closing, (← type read ctx).into .element]
  if (← nextIs "...") && (← peekAfter 1).isOperator "]" then
    let dots ← symbol "..."
    let closing ← symbol "]"
    return .branch .implicitLengthArrayType
      [opening, dots, closing, (← type read ctx).into .element]
  let length ← expression read .enclosed
  let closing ← symbol "]"
  if !(← continues ctx) then failure
  return .branch .arrayType
    [opening, length.into .length, closing, (← type read ctx).into .element]

def mapType (read : Reader) (ctx : Context) : Parser Draft :=
  branch .mapType do
    let word ← keyword "map"
    let opening ← symbol "["
    let key ← type read .enclosed
    let closing ← symbol "]"
    return [word, opening, key.into .key, closing, (← type read ctx).into .value]

def channelType (read : Reader) (ctx : Context) : Parser Draft :=
  branch .channelType do
    let words ←
      if ← nextIs "<-" then pure [← symbol "<-", ← keyword "chan"]
      else
        let word ← keyword "chan"
        if ← nextIs "<-" then pure [word, ← symbol "<-"] else pure [word]
    return words ++ [(← type read ctx).into .value]

def functionType (n : Nat) (read : Reader) (ctx : Context) : Parser Draft :=
  branch .functionType do
    let word ← keyword "func"
    return word :: (← signature n read ctx)

def parenthesizedType (read : Reader) : Parser Draft :=
  branch .parenthesizedType do
    return [← symbol "(", ← type read .enclosed, ← symbol ")"]

def typeTerm (n : Nat) (read : Reader) (ctx : Context) : Parser Draft := do
  let t ← peek
  if t.isName then namedType n read ctx
  else if t.isOperator "*" then
    branch .pointerType (return [← symbol "*", ← read (.typeTerm ctx)])
  else if t.isOperator "~" then
    branch .negatedType (return [← symbol "~", ← read (.typeTerm ctx)])
  else if t.isOperator "(" then parenthesizedType read
  else if t.isOperator "[" then sequenceType read ctx
  else if t.isOperator "<-" || t.isWord "chan" then channelType read ctx
  else if t.isWord "map" then mapType read ctx
  else if t.isWord "func" then functionType n read ctx
  else if t.isWord "struct" then structType n read
  else if t.isWord "interface" then interfaceType n read
  else failure

/-- More members of a union, joined to the left. -/
def unionRest (read : Reader) (ctx : Context) (left : Draft) : Nat → Parser Draft
  | 0 => failure
  | n + 1 => do
    if ← continuesWith ctx "|" then
      let bar ← symbol "|"
      let right ← read (.typeTerm ctx)
      unionRest read ctx (.branch .unionType [left, bar, right]) n
    else return left

def typeRule (n : Nat) (read : Reader) (ctx : Context) : Parser Draft := do
  unionRest read ctx (← read (.typeTerm ctx)) n

end Handoff.Syntax.Grammar
