import Handoff.Name.Package
import Handoff.Syntax.Node
import Handoff.Text.Blank
import Handoff.TypeName

/-!
# Imports and written types

The imports of a file give its package names; with them a type expression that is a name, perhaps
behind pointers, parentheses or type arguments, stands for a `TypeName`.
-/

namespace Handoff

open Syntax

/-- The package names of a file and their import paths; a later import of a name hides an earlier
one. -/
structure Imports where
  paths : List (String × String)
deriving Repr

namespace Imports

/-- The import path behind a package name. -/
def resolve (imports : Imports) (name : String) : Option String :=
  imports.paths.lookup name

/-- A string literal without its quotes. -/
def unquote (text : String) : String :=
  let cs := Text.trim text.toList
  match cs with
  | quote :: rest =>
    if (quote = '"' || quote = '\x60') && rest.getLast? == some quote then
      String.ofList rest.dropLast
    else String.ofList cs
  | [] => ""

/-- The specs of an import declaration, in parentheses or not. -/
def specs (declaration : Node) : List Node :=
  declaration.parts.flatMap fun part =>
    if part.kind = .importSpec then [part]
    else if part.kind = .importSpecList then part.parts.filter (·.kind == .importSpec)
    else []

/-- The name that a spec introduces and its path. Blank and dot imports introduce none. -/
def ofSpec (spec : Node) : Option (String × String) := do
  let path := unquote (← spec.child? .path).text
  match spec.child? .name with
  | none => return (defaultPackageName path, path)
  | some name =>
    if name.kind = .packageIdentifier || name.kind = .identifier then return (name.text, path)
    else none

/-- The imports of a file. -/
def ofFile (root : Node) : Imports :=
  let declarations := root.parts.filter (·.kind == .importDeclaration)
  ⟨((declarations.flatMap specs).filterMap ofSpec).reverse⟩

mutual

/-- The type that a type expression names. -/
def typeOf (imports : Imports) : Node → Option TypeName
  | n@⟨label, children⟩ =>
    match label.kind with
    | .typeIdentifier => some (.ofFile n.text)
    | .qualifiedType => do
      let package ← n.child? .package
      let name ← n.child? .name
      let path ← imports.resolve package.text
      return ⟨path, name.text⟩
    | .pointerType | .parenthesizedType => typeOfFirst imports children
    | .genericType => typeOfOrigin imports children
    | _ => none

/-- The type that the first part of a list of children names. -/
def typeOfFirst (imports : Imports) : List Node → Option TypeName
  | [] => none
  | c :: cs => if c.isPart then typeOf imports c else typeOfFirst imports cs

/-- The type that type arguments are given to. -/
def typeOfOrigin (imports : Imports) : List Node → Option TypeName
  | [] => none
  | c :: cs => if c.field == some .type then typeOf imports c else typeOfOrigin imports cs

end

/-- The type in the `type` field of a node. -/
def declaredType (imports : Imports) (n : Node) : Option TypeName :=
  (n.child? .type).bind imports.typeOf

end Imports

namespace Syntax.Node

/-- The declarations of a parameter list. -/
def parameters (list : Node) : List Node :=
  list.parts.filter fun d =>
    d.kind == .parameterDeclaration || d.kind == .variadicParameterDeclaration

/-- How many parameters a declaration stands for: one per name, or one without a name. -/
def parameterCount (declaration : Node) : Nat :=
  max (declaration.inField .name).length 1

end Syntax.Node

/-- The types of a parameter list, one per parameter. -/
def Imports.parameterTypes (imports : Imports) (list : Node) : List (Option TypeName) :=
  list.parameters.flatMap fun d => List.replicate d.parameterCount (imports.declaredType d)

end Handoff
