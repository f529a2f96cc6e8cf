import FederationGraph.Value

/-!
# Directives

A directive applied to a type or a field, kept as it was written: its name and
the values of its arguments in order.
-/
namespace FederationGraph

/-- A directive application. -/
structure Directive where
  name : String
  arguments : OrderedMap Value
  deriving Inhabited

namespace Directive

/-- The argument of a given name if it is a text. -/
def textArgument? (d : Directive) (argument : String) : Option String :=
  (d.arguments.get? argument).bind Value.text?

/-- The directive with null in place of every number that is not finite. -/
def finitePart (d : Directive) : Directive := ⟨d.name, d.arguments.map Value.finitePart⟩

end Directive

end FederationGraph
