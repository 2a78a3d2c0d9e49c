import Handoff.Syntax.Grammar.File

/-!
# Tree dumps

A dump shows the named nodes of a tree, one a line, indented by depth: field, kind, line and the
start of the text.
-/

namespace Handoff.Syntax

/-- The first fifty characters of a text, with line feeds made visible. -/
def excerpt (text : String) : String :=
  let cs := text.toList
  let shown := if 50 < cs.length then cs.take 50 ++ ['.', '.', '.'] else cs
  String.ofList (shown.flatMap fun c => if c = '\n' then ['\\', 'n'] else [c])

/-- The line that shows a node. -/
def Node.dumpLine (n : Node) (depth : Nat) : String :=
  String.ofList (List.replicate (2 * depth) ' ')
    ++ (n.field.map fun f => f.text ++ ": ").getD ""
    ++ n.kind.name ++ " [" ++ toString n.line ++ "] \"" ++ excerpt n.text ++ "\""

mutual

/-- The named nodes of a tree, each before its children. -/
def Node.dump (depth : Nat) : Node → List String
  | n@⟨_, children⟩ => n.dumpLine depth :: Node.dumpAll (depth + 1) children

def Node.dumpAll (depth : Nat) : List Node → List String
  | [] => []
  | c :: cs =>
    if c.kind.isNamed then Node.dump depth c ++ Node.dumpAll depth cs else Node.dumpAll depth cs

end

/-- The dump of a file: a heading, then its tree. -/
def dumpFile (path source : String) : List String :=
  ["AST for " ++ path ++ ":", "================"] ++ (parse source).dump 0

end Handoff.Syntax
