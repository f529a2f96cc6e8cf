import FederationGraph.Proofs.Dependency.FieldSetEdge
import FederationGraph.Proofs.FieldSet.Enclosing
import FederationGraph.Proofs.Parts

/-!
# Recorded paths are closed under prefixes

A field set that records an edge for a path has recorded one for every shorter
way down that path before. The reading selects containers ahead of what they
contain, however the braces stand, and a chain of owners along a path passes an
owner of each segment on its way, on whichever branches of the walk it goes.
-/
namespace FederationGraph.Registry

variable {r : Registry} {type : SchemaType} {field : SchemaField} {kind : DependencyKind}
  {subgraph fieldSet : String}

theorem fieldSetDependencies_eq (r : Registry) (type : SchemaType) (field : SchemaField)
    (fieldSet : String) (kind : DependencyKind) (subgraph : String) :
    r.fieldSetDependencies type field fieldSet kind subgraph =
      (FieldSet.occurrencesFrom [] none (FieldSet.tokens fieldSet)).flatMap fun o =>
        (r.resolve (Path.ofNames o.names) (startingType type field kind)).map
          (r.fieldSetDependency type field kind subgraph (Path.ofNames o.names)) := by
  rw [fieldSetDependencies, FieldSet.selections_eq, List.flatMap_map]
  rfl

/-- If a path resolves, every shorter way down it resolves, to the last segment of that way. -/
theorem exists_mem_walk_of_prefix {start : String} {segments stem : List String} {x : Resolution}
    (hx : x ∈ r.walk [start] segments) (hs : stem <+: segments) (hne : stem ≠ []) :
    ∃ y ∈ r.walk [start] stem, stem.getLast? = some y.field := by
  obtain ⟨⟨cursor, hcursor, chain⟩, -, -⟩ := mem_walk.mp hx
  obtain ⟨owner, hstem⟩ := chain.exists_of_prefix hs hne
  obtain ⟨y, hy, -⟩ := List.mem_map.mp (mem_map_owner_walk.mpr ⟨cursor, hcursor, hstem⟩)
  exact ⟨y, hy, (mem_walk.mp hy).2.1⟩

/-- Ahead of an edge of a field set stands one for every shorter way down its path. -/
theorem exists_earlier_dependency
    (dotFree : ∀ name, .name name ∈ FieldSet.tokens fieldSet → '.' ∉ name.toList)
    {earlier later : List Dependency} {d : Dependency}
    (h : r.fieldSetDependencies type field fieldSet kind subgraph = earlier ++ d :: later)
    {stem : List String} (hs : stem <+: Path.segments d.fieldPath) (hne : stem ≠ [])
    (hshorter : stem ≠ Path.segments d.fieldPath) :
    ∃ e ∈ earlier, e.group = d.group ∧ e.fieldPath = Path.ofNames stem ∧
      stem.getLast? = some e.dependedField := by
  rw [fieldSetDependencies_eq] at h
  obtain ⟨front, o, back, hsplit, hd, hfront⟩ := exists_of_flatMap_eq h
  obtain ⟨x, hx, rfl⟩ := List.mem_map.mp hd
  have ho : o ∈ FieldSet.occurrencesFrom [] none (FieldSet.tokens fieldSet) := by
    rw [hsplit]
    exact List.mem_append_right _ List.mem_cons_self
  have hpath : Path.segments (Path.ofNames o.names) = o.names :=
    FieldSet.segments_ofNames_of_mem dotFree ho List.prefix_rfl (by simp [FieldSet.Occurrence.names])
  change stem <+: Path.segments (Path.ofNames o.names) at hs
  change stem ≠ Path.segments (Path.ofNames o.names) at hshorter
  rw [hpath] at hs hshorter
  rw [resolve, hpath] at hx
  -- the reading has selected the shorter way before, and the walk passes through it
  obtain ⟨p, hp, rfl⟩ := FieldSet.exists_earlier_occurrence hsplit hs hne hshorter
  obtain ⟨y, hy, hlast⟩ := exists_mem_walk_of_prefix hx hs hne
  refine ⟨r.fieldSetDependency type field kind subgraph (Path.ofNames p.names) y, ?_, rfl, rfl,
    hlast⟩
  apply hfront.subset
  refine List.mem_flatMap.mpr ⟨p, hp, List.mem_map_of_mem ?_⟩
  rwa [resolve, FieldSet.segments_ofNames_of_mem dotFree ho hs hne]

theorem fieldSetDependencies_within {typeName fieldName : String}
    (ht : r.types.get? typeName = some type) (hf : type.fields.get? fieldName = some field)
    (hfederation : field.federation = FederationDirective.ofDirectives field.directives)
    {d : Directive} (hd : d ∈ field.directives) {graph : Option String}
    (names : d.Names kind fieldSet graph) (ambient : String) :
    r.fieldSetDependencies type field fieldSet kind ((nonEmpty? graph).getD ambient) <:+:
      r.dependencies ambient := by
  have hfield := directiveDependencies_infix ht hf ambient
  refine List.IsInfix.trans ?_ hfield
  rw [directiveDependencies_eq r ambient type hfederation, ← edgesFor_of_names r ambient type
    field names]
  have hpair : r.edgesFor ambient type field .requires d ++
      r.edgesFor ambient type field .provides d <:+: field.directives.flatMap fun d =>
        r.edgesFor ambient type field .requires d ++ r.edgesFor ambient type field .provides d :=
    List.infix_of_mem_flatten (List.mem_map_of_mem hd)
  refine List.IsInfix.trans ?_ hpair
  cases names with
  | requires | joinRequires => exact (List.prefix_append _ _).isInfix
  | provides | joinProvides => exact (List.suffix_append _ _).isInfix

/-- The edges of a field set without dots in its names are recorded in one piece, and ahead of each
of them stands, for every shorter way down its path, an edge of the same field and subgraph to what
that way leads to. Fragments and braces may stand in the field set as they like. -/
theorem fieldSetDependencies_prefix_closed (document : Document) (ambient : String)
    {typeName fieldName : String} {type : SchemaType} {field : SchemaField}
    (ht : (ofDocument document).types.get? typeName = some type)
    (hf : type.fields.get? fieldName = some field) {d : Directive} (hd : d ∈ field.directives)
    {kind : DependencyKind} {fieldSet : String} {graph : Option String}
    (names : d.Names kind fieldSet graph)
    (dotFree : ∀ name, .name name ∈ FieldSet.tokens fieldSet → '.' ∉ name.toList) :
    let r := ofDocument document
    let recorded := r.fieldSetDependencies type field fieldSet kind ((nonEmpty? graph).getD ambient)
    recorded <:+: r.dependencies ambient ∧
      ∀ earlier e later, recorded = earlier ++ e :: later →
        ∀ stem, stem <+: Path.segments e.fieldPath → stem ≠ [] →
          stem ≠ Path.segments e.fieldPath →
            ∃ first ∈ earlier, first.group = e.group ∧ first.fieldPath = Path.ofNames stem ∧
              stem.getLast? = some first.dependedField := by
  intro r recorded
  have hfederation := (isMergeOf_ofDocument document).federation_eq ht hf
  refine ⟨fieldSetDependencies_within ht hf hfederation hd names ambient, ?_⟩
  intro earlier e later h stem hs hne hshorter
  exact exists_earlier_dependency dotFree h hs hne hshorter

/-- Neither an open brace nor a fragment keeps the container of a field from being recorded. -/
theorem fieldSetDependencies_prefix_closed_unbalanced :
    let fieldSet := "buyer \x7b ... on User \x7b id"
    let requires : Directive := ⟨"requires", .ofList [("fields", .text fieldSet)]⟩
    let document : Document := [
      .fragment ⟨"Order", false, false, [], [],
        [⟨"total", .named "Int", [requires]⟩, ⟨"buyer", .named "Party", []⟩]⟩,
      .fragment ⟨"Party", true, false, [], [], [⟨"id", .named "ID", []⟩]⟩,
      .fragment ⟨"User", false, false, ["Party"], [], [⟨"id", .named "ID", []⟩]⟩]
    let r := ofDocument document
    let container : Dependency := ⟨"Order", "total", "shop", "Order", "buyer", .requires, "buyer"⟩
    let content : Dependency := ⟨"Order", "total", "shop", "User", "id", .requires, "buyer.id"⟩
    ∃ type field, r.types.get? "Order" = some type ∧ type.fields.get? "total" = some field ∧
      requires ∈ field.directives ∧
      (∀ name, .name name ∈ FieldSet.tokens fieldSet → '.' ∉ name.toList) ∧
      r.fieldSetDependencies type field fieldSet .requires "shop" = [container, content] ∧
      ∃ first ∈ [container], first.group = content.group ∧ first.fieldPath = "buyer" := by
  intro fieldSet requires document r container content
  have ht : r.types.get? "Order" = some _ := rfl
  have names : requires.Names .requires fieldSet none := .requires rfl rfl
  have htokens : FieldSet.tokens fieldSet =
      [.name "buyer", .opening, .opening, .name "id"] := by decide +kernel
  have dotFree : ∀ name, .name name ∈ FieldSet.tokens fieldSet → '.' ∉ name.toList := by
    rw [htokens]
    simp
  refine ⟨_, _, ht, rfl, List.mem_cons_self, dotFree, by decide +kernel, ?_⟩
  obtain ⟨-, closed⟩ := fieldSetDependencies_prefix_closed document "shop" ht
    (show OrderedMap.get? _ "total" = some _ from rfl) List.mem_cons_self names dotFree
  have hstem : ["buyer"] <+: Path.segments content.fieldPath := by decide +kernel
  obtain ⟨first, hfirst, hgroup, hpath, -⟩ := closed [container] content [] (by decide +kernel)
    ["buyer"] hstem (by decide) (by decide +kernel)
  exact ⟨first, hfirst, hgroup, hpath.trans (by decide)⟩

end FederationGraph.Registry
