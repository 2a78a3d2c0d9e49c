import Handoff.Resolution.Basic

/-!
# Token scopes

A function with a named parameter that is a context opens a token scope. A node belongs to the scope
of the innermost such function around it, which hides all outer ones.
-/

namespace Handoff

open Syntax

/-- The context parameters of a function, one entry per parameter: its name, or none if it has
none. -/
def tokenParameters (imports : Imports) (carriers : Carriers) (function : Node) :
    List (Option String) :=
  match function.child? .parameters with
  | none => []
  | some list =>
    list.parameters.flatMap fun d =>
      if (imports.declaredType d).any (Carriers.isToken carriers) then
        match d.inField .name with
        | [] => [none]
        | names => names.map fun name => if name.text = "_" then none else some name.text
      else []

/-- The names of a function's context parameters. -/
def tokenNames (imports : Imports) (carriers : Carriers) (function : Node) : List String :=
  (tokenParameters imports carriers function).filterMap fun name => name

/-- Whether a function has a named context parameter. -/
def declaresToken (imports : Imports) (carriers : Carriers) (function : Node) : Bool :=
  (tokenParameters imports carriers function).any Option.isSome

structure TokenScope where
  owner : Node
  names : List String
deriving Repr

namespace TokenScope

/-- The scope that a node opens. -/
def ofNode (imports : Imports) (carriers : Carriers) (n : Node) : Option TokenScope :=
  if n.kind.isFunction then
    match tokenNames imports carriers n with
    | [] => none
    | names => some ⟨n, names⟩
  else none

/-- The innermost scope at or above a node. -/
def around (root : Node) (imports : Imports) (carriers : Carriers) (n : Node) :
    Option TokenScope :=
  (n :: root.ancestors n).findSome? (ofNode imports carriers)

/-- All scopes of a file, outer ones first. -/
def all (root : Node) (imports : Imports) (carriers : Carriers) : List TokenScope :=
  root.preorder.filterMap (ofNode imports carriers)

end TokenScope

end Handoff
