/-!
# Checkers

A checker is a category of findings. Five of them ask whether a spawned closure uses a context, one
asks for derivation calls, and one keeps the ignore directives honest.
-/

namespace Handoff

/-- What a checker looks at. -/
inductive CheckerKind where
  /-- The use of a context in spawned closures. -/
  | propagation
  /-- Derivation calls at the start of spawned closures. -/
  | derivation
  /-- The ignore directives themselves. -/
  | directive
deriving DecidableEq, Repr

def CheckerKind.name : CheckerKind → String
  | .propagation => "propagation"
  | .derivation => "derivation"
  | .directive => "directive"

inductive Checker where
  | goroutine
  | errgroup
  | waitgroup
  | spawner
  | gotask
  | derive
  | unusedIgnore
deriving DecidableEq, Repr

namespace Checker

/-- Every checker, in the order in which lists show them. -/
def all : List Checker :=
  [.goroutine, .errgroup, .waitgroup, .spawner, .gotask, .derive, .unusedIgnore]

theorem mem_all (c : Checker) : c ∈ all := by
  cases c <;> decide

def name : Checker → String
  | .goroutine => "goroutine"
  | .errgroup => "errgroup"
  | .waitgroup => "waitgroup"
  | .spawner => "spawner"
  | .gotask => "gotask"
  | .derive => "derive"
  | .unusedIgnore => "unused-ignore"

def description : Checker → String
  | .goroutine => "go statements must use the context of the enclosing function"
  | .errgroup => "errgroup.Group.Go closures must use the enclosing context"
  | .waitgroup => "sync.WaitGroup.Go closures must use the enclosing context"
  | .spawner => "closures handed to goroutine-spawning APIs must use the enclosing context"
  | .gotask => "gotask task functions must use the enclosing context"
  | .derive => "spawned closures must call the configured derivation function at their start"
  | .unusedIgnore => "ignore directives must suppress something"

def kind : Checker → CheckerKind
  | .goroutine | .errgroup | .waitgroup | .spawner | .gotask => .propagation
  | .derive => .derivation
  | .unusedIgnore => .directive

/-- The checker of a name. -/
def named (text : String) : Option Checker :=
  all.find? fun c => c.name == text

/-- Reading a checker's own name gives it back. -/
@[simp]
theorem named_name (c : Checker) : named c.name = some c := by
  cases c <;> decide

theorem name_of_named {text : String} {c : Checker} (h : named text = some c) : c.name = text := by
  simpa using List.find?_some h

theorem name_injective {a b : Checker} (h : a.name = b.name) : a = b := by
  have := named_name a
  rw [h, named_name] at this
  exact (Option.some.inj this).symm

end Checker

end Handoff
