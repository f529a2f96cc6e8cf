import FederationGraph.Dependency.Record
import FederationGraph.Proofs.FieldSet.Forest
import FederationGraph.Proofs.Registry.Chain
import FederationGraph.Proofs.Registry.Merge
import Mathlib.Data.List.Basic

/-!
# The edges of a field set

A field set that writes a forest gives, for each node of the forest in preorder,
one edge to each owner at which a chain along the node's path ends, and no other.
The directive that names the field set decides where the chains start and which
subgraph the edges belong to; whether an edge is one of a key is decided by the
key fields of the owner alone.
-/
namespace FederationGraph

/-- `d.Names kind fieldSet graph`: a directive names a field set for `kind`, and the graph it
belongs to if it says so. -/
inductive Directive.Names (d : Directive) : DependencyKind → String → Option String → Prop
  | requires {fieldSet : String} (name : d.name = "requires")
      (given : d.textArgument? "fields" = some fieldSet) : Names d .requires fieldSet none
  | provides {fieldSet : String} (name : d.name = "provides")
      (given : d.textArgument? "fields" = some fieldSet) : Names d .provides fieldSet none
  | joinRequires {fieldSet : String} (name : d.name = "join__field")
      (given : d.textArgument? "requires" = some fieldSet) :
      Names d .requires fieldSet (d.textArgument? "graph")
  | joinProvides {fieldSet : String} (name : d.name = "join__field")
      (given : d.textArgument? "provides" = some fieldSet) :
      Names d .provides fieldSet (d.textArgument? "graph")

/-- The field sets a directive names, in the order they are recorded. -/
def Directive.fieldSetUses (ambient : String) (d : Directive) : List Registry.FieldSetUse :=
  d.federation?.toList.flatMap (Registry.fieldSetUses ambient)

namespace Registry

def useDependencies (r : Registry) (type : SchemaType) (field : SchemaField) (use : FieldSetUse) :
    List Dependency :=
  r.fieldSetDependencies type field use.fieldSet use.kind use.subgraph

/-- The edges recorded for what a directive names for `kind`. -/
def edgesFor (r : Registry) (ambient : String) (type : SchemaType) (field : SchemaField)
    (kind : DependencyKind) (d : Directive) : List Dependency :=
  ((d.fieldSetUses ambient).filter fun use => use.kind = kind).flatMap
    (r.useDependencies type field)

/-- Requirements are recorded ahead of provisions, and nothing else is. -/
theorem fieldSetUses_eq (ambient : String) (d : FederationDirective) :
    fieldSetUses ambient d =
      (fieldSetUses ambient d).filter (fun use => use.kind = .requires) ++
        (fieldSetUses ambient d).filter (fun use => use.kind = .provides) := by
  cases d with
  | joinField graph requires provides marked =>
    rw [fieldSetUses]
    cases nonEmpty? requires <;> cases nonEmpty? provides <;> simp
  | _ => simp [fieldSetUses]

theorem directiveDependencies_eq (r : Registry) (ambient : String) (type : SchemaType)
    {field : SchemaField}
    (h : field.federation = FederationDirective.ofDirectives field.directives) :
    r.directiveDependencies ambient type field = field.directives.flatMap fun d =>
      r.edgesFor ambient type field .requires d ++ r.edgesFor ambient type field .provides d := by
  have hd : ∀ d : Directive,
      r.edgesFor ambient type field .requires d ++ r.edgesFor ambient type field .provides d =
        (d.fieldSetUses ambient).flatMap (r.useDependencies type field) := by
    intro d
    rw [edgesFor, edgesFor, ← List.flatMap_append, Directive.fieldSetUses]
    cases d.federation? with
    | none => rfl
    | some fd => simp only [Option.toList_some, List.flatMap_singleton, ← fieldSetUses_eq]
  simp only [hd]
  rw [directiveDependencies, h, FederationDirective.ofDirectives]
  induction field.directives with
  | nil => rfl
  | cons d rest ih =>
    rw [List.flatMap_cons, ← ih, List.filterMap_cons, Directive.fieldSetUses]
    cases d.federation? with
    | none => rfl
    | some fd => simp; rfl

theorem fieldSetDependencies_empty (r : Registry) (type : SchemaType) (field : SchemaField)
    (kind : DependencyKind) (subgraph : String) :
    r.fieldSetDependencies type field "" kind subgraph = [] := by
  have hs : FieldSet.selections "" = [] := by
    rw [FieldSet.selections, FieldSet.tokens, String.toList_empty, FieldSet.rawTokens_nil,
      FieldSet.dropSpreads_eq_self (by simp)]
    rfl
  rw [fieldSetDependencies, hs, List.flatMap_nil]

/-- An empty field set of a joining directive is passed over, which changes nothing. -/
theorem flatMap_nonEmpty (r : Registry) (type : SchemaType) (field : SchemaField)
    (fieldSet : String) (kind : DependencyKind) (subgraph : String) :
    ((nonEmpty? (some fieldSet)).map fun text => ⟨text, kind, subgraph⟩).toList.flatMap
        (r.useDependencies type field) =
      r.fieldSetDependencies type field fieldSet kind subgraph := by
  by_cases he : fieldSet = ""
  · subst he
    rw [fieldSetDependencies_empty]
    rfl
  · simp [nonEmpty?, Option.filter, he, useDependencies]

theorem filter_use (text : Option String) (kind other : DependencyKind) (subgraph : String) :
    (text.map fun t => FieldSetUse.mk t kind subgraph).toList.filter (fun use => use.kind = other) =
      if kind = other then (text.map fun t => FieldSetUse.mk t kind subgraph).toList else [] := by
  cases text <;> split <;> simp [*]

/-- What a directive names for a kind is recorded under its graph, or under the ambient label. -/
theorem edgesFor_of_names (r : Registry) (ambient : String) (type : SchemaType)
    (field : SchemaField) {d : Directive} {kind : DependencyKind} {fieldSet : String}
    {graph : Option String} (h : d.Names kind fieldSet graph) :
    r.edgesFor ambient type field kind d =
      r.fieldSetDependencies type field fieldSet kind ((nonEmpty? graph).getD ambient) := by
  cases h with
  | requires name given =>
    have hd : d.federation? = some (.requires fieldSet) := by
      simp [Directive.federation?, name, given]
    simp [edgesFor, Directive.fieldSetUses, hd, fieldSetUses, useDependencies, nonEmpty?]
  | provides name given =>
    have hd : d.federation? = some (.provides fieldSet) := by
      simp [Directive.federation?, name, given]
    simp [edgesFor, Directive.fieldSetUses, hd, fieldSetUses, useDependencies, nonEmpty?]
  | joinRequires name given =>
    have hd : d.federation? = some (.joinField (d.textArgument? "graph") (some fieldSet)
        (d.textArgument? "provides") ((d.arguments.get? "external").any Value.isTrue)) := by
      simp [Directive.federation?, name, given]
    simp [← flatMap_nonEmpty, edgesFor, Directive.fieldSetUses, hd, fieldSetUses,
      filter_use, List.filter_append]
  | joinProvides name given =>
    have hd : d.federation? = some (.joinField (d.textArgument? "graph")
        (d.textArgument? "requires") (some fieldSet)
        ((d.arguments.get? "external").any Value.isTrue)) := by
      simp [Directive.federation?, name, given]
    simp [← flatMap_nonEmpty, edgesFor, Directive.fieldSetUses, hd, fieldSetUses,
      filter_use, List.filter_append]

/-- The edge from a field to an owner of the last name on the path to a node. -/
def edgeTo (r : Registry) (type : SchemaType) (field : SchemaField) (kind : DependencyKind)
    (subgraph : String) (o : FieldSet.Occurrence) (owner : String) : Dependency where
  dependingType := type.name
  dependingField := field.name
  dependingSubgraph := subgraph
  dependedType := owner
  dependedField := o.name
  kind := if r.isKeyField owner o.name then .key else kind
  fieldPath := Path.ofNames o.names

/-- The edges of a field set that writes a forest, node by node and owner by owner. -/
theorem fieldSetDependencies_of_written (r : Registry) (type : SchemaType) (field : SchemaField)
    {forest : FieldSet.Forest} {fieldSet : String}
    (h : FieldSet.Written forest.tokens fieldSet.toList) (hd : forest.DotFree)
    (kind : DependencyKind) (subgraph : String) :
    r.fieldSetDependencies type field fieldSet kind subgraph =
      (forest.occurrences []).flatMap fun o =>
        ((r.walk [startingType type field kind] o.names).map Resolution.owner).map
          (r.edgeTo type field kind subgraph o) := by
  have hr := FieldSet.occurrencesFrom_forest forest [] none []
  rw [List.append_nil] at hr
  rw [fieldSetDependencies, FieldSet.selections_eq, FieldSet.tokens_of_written h, hr,
    FieldSet.occurrencesFrom, List.append_nil, List.flatMap_map]
  apply List.flatMap_congr
  intro o ho
  have hs : Path.segments (Path.ofNames o.names) = o.names :=
    Path.segments_ofNames (by simp [FieldSet.Occurrence.names]) (hd.names (by simp) ho)
  rw [List.map_map, FieldSet.Occurrence.selection, resolve, hs]
  apply List.map_congr_left
  intro x hx
  obtain ⟨-, hl, -⟩ := mem_walk.mp hx
  have hf : o.name = x.field := by
    simpa [FieldSet.Occurrence.names] using hl
  rw [Function.comp_apply, edgeTo, hf]
  rfl

theorem directiveDependencies_infix {r : Registry} {typeName fieldName : String}
    {type : SchemaType} {field : SchemaField} (ht : r.types.get? typeName = some type)
    (hf : type.fields.get? fieldName = some field) (ambient : String) :
    r.directiveDependencies ambient type field <:+: r.dependencies ambient := by
  have hfield : r.fieldDependencies ambient type field <:+:
      type.fields.values.flatMap (r.fieldDependencies ambient type) :=
    List.infix_of_mem_flatten (List.mem_map_of_mem (OrderedMap.mem_values.mpr ⟨fieldName, hf⟩))
  have htype : r.typeDependencies ambient type <:+: r.dependencies ambient :=
    List.infix_of_mem_flatten (List.mem_map_of_mem (OrderedMap.mem_values.mpr ⟨typeName, ht⟩))
  have hd : r.directiveDependencies ambient type field <:+:
      r.fieldDependencies ambient type field :=
    (List.suffix_append _ _).isInfix
  exact hd.trans (hfield.trans ((List.suffix_append _ _).isInfix.trans htype))

/-- The edges of a field's directives are those of its field sets, directive by directive. A field
set that writes a forest without dots gives, for each node in preorder, one edge to each type at
which a chain of owners along the node's path ends. -/
theorem edgesFor_written_forest (document : Document) (ambient : String)
    {typeName fieldName : String} {type : SchemaType} {field : SchemaField}
    (ht : (ofDocument document).types.get? typeName = some type)
    (hf : type.fields.get? fieldName = some field) {d : Directive} {kind : DependencyKind}
    {fieldSet : String} {graph : Option String} (names : d.Names kind fieldSet graph)
    {forest : FieldSet.Forest} (h : FieldSet.Written forest.tokens fieldSet.toList)
    (hd : forest.DotFree) :
    let r := ofDocument document
    (field.directives.flatMap fun d =>
        r.edgesFor ambient type field .requires d ++
          r.edgesFor ambient type field .provides d) <:+: r.dependencies ambient ∧
      ∃ ends : FieldSet.Occurrence → List String,
        (∀ o ∈ forest.occurrences [], (ends o).Nodup ∧ ∀ owner, owner ∈ ends o ↔
          r.Chain (if kind = .provides then field.namedType else typeName) o.names owner) ∧
        r.edgesFor ambient type field kind d =
          (forest.occurrences []).flatMap fun o => (ends o).map fun owner =>
            { dependingType := typeName
              dependingField := fieldName
              dependingSubgraph := (nonEmpty? graph).getD ambient
              dependedType := owner
              dependedField := o.name
              kind := if r.isKeyField owner o.name then .key else kind
              fieldPath := Path.ofNames o.names } := by
  intro r
  have htype := (isMergeOf_ofDocument document).eq_ofFragments ht
  rw [htype] at hf
  obtain ⟨definition, hname, hfield⟩ := SchemaType.exists_definition hf
  have htn : type.name = typeName := by rw [htype]; rfl
  have hfn : field.name = fieldName := by rw [hfield, ← hname]; rfl
  refine ⟨?_, fun o => (r.walk [startingType type field kind] o.names).map Resolution.owner, ?_, ?_⟩
  · rw [← directiveDependencies_eq r ambient type (by rw [hfield]; rfl)]
    exact directiveDependencies_infix ht (htype ▸ hf) ambient
  · intro o _
    refine ⟨nodup_map_owner_walk r _ o.names, fun owner => ?_⟩
    rw [mem_map_owner_walk, startingType, htn]
    simp
  · rw [edgesFor_of_names r ambient type field names, fieldSetDependencies_of_written r _ _ h hd,
      ← htn, ← hfn]
    rfl

/-- A field below an interface is needed from an implementation, of which it happens to be a key. -/
theorem edgesFor_written_forest_interface :
    let requires : Directive := ⟨"requires", .ofList [("fields", .text "buyer{id}")]⟩
    let key : Directive := ⟨"key", .ofList [("fields", .text "id")]⟩
    let document : Document := [
      .fragment ⟨"User", false, false, ["Party"], [key], [⟨"id", .named "ID", []⟩]⟩,
      .fragment ⟨"Order", false, false, [], [],
        [⟨"total", .named "Int", [requires]⟩, ⟨"buyer", .named "Party", []⟩]⟩,
      .fragment ⟨"Party", true, false, [], [], [⟨"id", .named "ID", []⟩]⟩]
    let r := ofDocument document
    FieldSet.Written [.name "buyer", .opening, .name "id", .closing] "buyer{id}".toList ∧
      ∃ type field, r.types.get? "Order" = some type ∧ type.fields.get? "total" = some field ∧
        requires.Names .requires "buyer{id}" none ∧
        ⟨"Order", "total", "shop", "User", "id", .key, "buyer.id"⟩ ∈
          r.edgesFor "shop" type field .requires requires := by
  intro requires key document r
  let buyer : FieldSet.FieldName := ⟨"buyer", by decide, by decide⟩
  let id : FieldSet.FieldName := ⟨"id", by decide, by decide⟩
  let forest : FieldSet.Forest := .node buyer (.leaf id .nil) .nil
  have ht : "buyer{id}".toList = "buyer".toList ++ '{' :: ("id".toList ++ '}' :: []) := by decide
  have hw : FieldSet.Written forest.tokens "buyer{id}".toList := by
    rw [ht]
    exact .name nofun <| .opening <| .name nofun <| .closing .done
  have hd : forest.DotFree := by
    simp only [FieldSet.Forest.DotFree, forest]
    decide
  have names : requires.Names .requires "buyer{id}" none := .requires rfl rfl
  have leads : r.fieldType? "Order" "buyer" = some "Party" := by decide +kernel
  have chain : r.Chain "Order" ["buyer", "id"] "User" := by
    refine .link (.itself rfl rfl ?_) leads (.last (.implementation rfl rfl ?_ ?_))
    all_goals decide +kernel
  have ho : ⟨["buyer"], "id"⟩ ∈ forest.occurrences [] := by decide
  refine ⟨hw, _, _, rfl, rfl, names, ?_⟩
  obtain ⟨-, ends, hends, hedges⟩ := edgesFor_written_forest document "shop"
    (show r.types.get? "Order" = some _ from rfl)
    (show OrderedMap.get? _ "total" = some _ from rfl) names hw hd
  rw [hedges, List.mem_flatMap]
  refine ⟨_, ho, List.mem_map.mpr ⟨"User", ((hends _ ho).2 "User").mpr chain, ?_⟩⟩
  decide +kernel

end Registry

end FederationGraph
