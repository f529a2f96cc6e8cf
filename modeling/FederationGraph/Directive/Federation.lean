import FederationGraph.Directive.Basic
import FederationGraph.FieldSet.Selection

/-!
# Federation directives

The directives that say how a schema is split over subgraphs. The first version
of federation writes keys, requirements, provisions and external fields with a
directive each; the second writes them as arguments of two joining directives.
All other directives play no part.
-/
namespace FederationGraph

/-- What a directive says about federation. -/
inductive FederationDirective where
  | key (fields : String)
  | external
  | requires (fields : String)
  | provides (fields : String)
  | joinField (graph requires provides : Option String) (external : Bool)
  | joinType (graph key : Option String)
  deriving DecidableEq, Repr, Inhabited

namespace Directive

/-- The names of the directives whose meaning lies in a text argument `fields`. -/
def takesFields (name : String) : Bool := name == "key" || name == "requires" || name == "provides"

/--
What a directive says about federation: nothing for an unknown name, and nothing
for a key, a requirement or a provision without a text argument `fields`.
-/
def federation? (d : Directive) : Option FederationDirective :=
  if d.name = "key" then (d.textArgument? "fields").map .key
  else if d.name = "requires" then (d.textArgument? "fields").map .requires
  else if d.name = "provides" then (d.textArgument? "fields").map .provides
  else if d.name = "external" then some .external
  else if d.name = "join__field" then
    some (.joinField (d.textArgument? "graph") (d.textArgument? "requires")
      (d.textArgument? "provides") ((d.arguments.get? "external").any Value.isTrue))
  else if d.name = "join__type" then
    some (.joinType (d.textArgument? "graph") (d.textArgument? "key"))
  else none

end Directive

namespace FederationDirective

/-- The federation directives among directives, in order. -/
def ofDirectives (directives : List Directive) : List FederationDirective :=
  directives.filterMap Directive.federation?

/-- Whether a directive marks its field as supplied by another subgraph. -/
def isExternal : FederationDirective → Bool
  | .external => true
  | .joinField _ _ _ marked => marked
  | _ => false

/-- The field set in which a directive declares a key. -/
def keyFieldSet? : FederationDirective → Option String
  | .key fields => some fields
  | .joinType _ fields => fields
  | _ => none

/-- The paths of the keys that directives declare, in order and with repetitions. -/
def keyPaths (directives : List FederationDirective) : List String :=
  (directives.filterMap keyFieldSet?).flatMap fun fieldSet =>
    (FieldSet.selections fieldSet).map FieldSet.Selection.path

end FederationDirective

end FederationGraph
