import FederationGraph.Proofs.Dependency.FieldSetEdge
import FederationGraph.Proofs.Dependency.Reordering
import FederationGraph.Proofs.Document.Names

/-!
# Edges stand on the schema

There are four places at which edges are recorded: for the keys of extensions,
for keys that are external, for the types of fields and for the field sets that
directives name. Wherever an edge comes from, it leads from one registered type
to another, its path ends in the field it leads to, and its kind agrees with what
the registry says about that field.
-/
namespace FederationGraph

/-- A directive that marks its field as supplied by another subgraph. -/
def Directive.MarksExternal (d : Directive) : Prop :=
  d.name = "external" ∨
    d.name = "join__field" ∧ d.arguments.get? "external" = some (.boolean true)

theorem Directive.isExternal_federation? (d : Directive) :
    d.federation?.any FederationDirective.isExternal = true ↔ d.MarksExternal := by
  have hvalue : ∀ value : Option Value,
      value.any Value.isTrue = true ↔ value = some (.boolean true) := by
    intro value
    rcases value with _ | value
    · simp
    · cases value <;> simp [Value.isTrue]
  unfold federation? MarksExternal
  split_ifs with hkey hrequires hprovides hexternal hfield htype
  · cases d.textArgument? "fields" <;> simp [hkey, FederationDirective.isExternal]
  · cases d.textArgument? "fields" <;> simp [hrequires, FederationDirective.isExternal]
  · cases d.textArgument? "fields" <;> simp [hprovides, FederationDirective.isExternal]
  · simp [hexternal, FederationDirective.isExternal]
  · simp [hfield, FederationDirective.isExternal, hvalue]
  · simp [htype, FederationDirective.isExternal]
  · simp [hexternal, hfield]

theorem FederationDirective.exists_marksExternal {directives : List Directive} :
    (ofDirectives directives).any isExternal = true ↔ ∃ d ∈ directives, d.MarksExternal := by
  rw [ofDirectives, List.any_filterMap, List.any_eq_true]
  refine exists_congr fun d => and_congr_right fun _ => ?_
  rw [← d.isExternal_federation?]
  cases d.federation? <;> rfl

theorem Path.getLast?_segments_of_isSingle {path : String} (h : isSingle path = true) :
    (segments path).getLast? = some path := by
  have hd : ∀ name ∈ [path], '.' ∉ name.toList := by
    intro name hn
    obtain rfl := List.mem_singleton.mp hn
    simpa [isSingle] using h
  have hs : segments path = [path] := by
    simpa using segments_ofNames (List.cons_ne_nil path []) hd
  rw [hs, List.getLast?_singleton]

namespace Registry

variable {r : Registry} {ambient : String} {d : Dependency}

/-- `r.Recorded ambient d`: one of the places at which edges are recorded gives `d`. -/
inductive Recorded (r : Registry) (ambient : String) : Dependency → Prop
  | entity {name key : String} {type : SchemaType} (known : r.types.get? name = some type)
      (listed : key ∈ type.keyFields) (single : Path.isSingle key = true)
      (extended : type.isExtension = true) :
      Recorded r ambient ⟨name, entityField, ambient, name, key, .key, key⟩
  | external {name key : String} {type : SchemaType} {field : SchemaField}
      (known : r.types.get? name = some type) (listed : key ∈ type.keyFields)
      (single : Path.isSingle key = true) (defined : type.fields.get? key = some field)
      (marked : field.federation.any FederationDirective.isExternal = true) :
      Recorded r ambient ⟨name, key, ambient, name, key, .external, key⟩
  | fieldType {name fieldName : String} {type : SchemaType} {field : SchemaField}
      (known : r.types.get? name = some type) (defined : type.fields.get? fieldName = some field)
      (registered : r.contains field.namedType = true) :
      Recorded r ambient
        ⟨name, fieldName, ambient, field.namedType, fieldName, .fieldType, fieldName⟩
  | fieldSet {name fieldName : String} {type : SchemaType} {field : SchemaField}
      {applied : FederationDirective} {use : FieldSetUse} {selection : FieldSet.Selection}
      {target : Resolution} (known : r.types.get? name = some type)
      (defined : type.fields.get? fieldName = some field) (stands : applied ∈ field.federation)
      (named : use ∈ fieldSetUses ambient applied)
      (selected : selection ∈ FieldSet.selections use.fieldSet)
      (resolved : target ∈ r.resolve selection.path (startingType type field use.kind)) :
      Recorded r ambient
        (r.fieldSetDependency type field use.kind use.subgraph selection.path target)

theorem recorded_of_mem_keyDependencies (keyed : r.Keyed) {name : String} {type : SchemaType}
    (known : r.types.get? name = some type) (h : d ∈ keyDependencies ambient type) :
    r.Recorded ambient d := by
  obtain ⟨key, hkey, h⟩ := List.mem_flatMap.mp h
  obtain ⟨listed, single⟩ := List.mem_filter.mp hkey
  rw [keyDependenciesAt, keyed.types known] at h
  rcases List.mem_append.mp h with h | h <;> rw [List.mem_ite_nil_right, List.mem_singleton] at h
  · obtain ⟨extended, rfl⟩ := h
    exact .entity known listed single extended
  · obtain ⟨external, rfl⟩ := h
    obtain ⟨field, defined, marked⟩ := (Option.any_eq_true _ _).mp external
    exact .external known listed single defined marked

theorem recorded_of_mem_fieldDependencies (keyed : r.Keyed) {name fieldName : String}
    {type : SchemaType} {field : SchemaField} (known : r.types.get? name = some type)
    (defined : type.fields.get? fieldName = some field)
    (h : d ∈ r.fieldDependencies ambient type field) : r.Recorded ambient d := by
  rcases List.mem_append.mp h with h | h
  · rw [fieldTypeDependency, keyed.types known, keyed.fields known defined,
      List.mem_ite_nil_right, List.mem_singleton] at h
    obtain ⟨registered, rfl⟩ := h
    exact .fieldType known defined registered
  · obtain ⟨use, huse, h⟩ := List.mem_flatMap.mp h
    obtain ⟨applied, stands, named⟩ := List.mem_flatMap.mp huse
    obtain ⟨selection, selected, h⟩ := List.mem_flatMap.mp h
    obtain ⟨target, resolved, rfl⟩ := List.mem_map.mp h
    exact .fieldSet known defined stands named selected resolved

theorem recorded_of_mem_dependencies (keyed : r.Keyed) (h : d ∈ r.dependencies ambient) :
    r.Recorded ambient d := by
  obtain ⟨type, htype, h⟩ := List.mem_flatMap.mp h
  obtain ⟨name, known⟩ := OrderedMap.mem_values.mp htype
  rcases List.mem_append.mp h with h | h
  · exact recorded_of_mem_keyDependencies keyed known h
  · obtain ⟨field, hfield, h⟩ := List.mem_flatMap.mp h
    obtain ⟨fieldName, defined⟩ := OrderedMap.mem_values.mp hfield
    exact recorded_of_mem_fieldDependencies keyed known defined h

theorem kind_of_mem_fieldSetUses {applied : FederationDirective} {use : FieldSetUse}
    (h : use ∈ fieldSetUses ambient applied) : use.kind = .requires ∨ use.kind = .provides := by
  rw [fieldSetUses_eq] at h
  rcases List.mem_append.mp h with h | h
  · exact .inl (of_decide_eq_true (List.mem_filter.mp h).2)
  · exact .inr (of_decide_eq_true (List.mem_filter.mp h).2)

theorem contains_of_get? {name : String} {type : SchemaType} (h : r.types.get? name = some type) :
    r.contains name = true := by
  rw [contains, OrderedMap.contains, h]
  rfl

theorem contains_of_hasField {name fieldName : String} (h : r.hasField name fieldName = true) :
    r.contains name = true := by
  obtain ⟨type, known, -⟩ := (Option.any_eq_true _ _).mp h
  exact contains_of_get? known

theorem hasField_of_get? {name fieldName : String} {type : SchemaType} {field : SchemaField}
    (known : r.types.get? name = some type) (defined : type.fields.get? fieldName = some field) :
    r.hasField name fieldName = true := by
  rw [r.hasField_eq known, OrderedMap.contains, defined]
  rfl

theorem isKeyField_of_mem {name key : String} {type : SchemaType}
    (known : r.types.get? name = some type) (listed : key ∈ type.keyFields) :
    r.isKeyField name key = true := by
  rw [isKeyField, known, Option.any_some]
  exact List.contains_iff_mem.mpr listed

/-- A path resolves to its last segment, as a field of the owner. -/
theorem field_of_mem_resolve {path start : String} {target : Resolution}
    (h : target ∈ r.resolve path start) :
    (Path.segments path).getLast? = some target.field ∧
      r.hasField target.owner target.field = true := by
  obtain ⟨⟨_, _, chain⟩, hlast, -⟩ := mem_walk.mp h
  obtain ⟨segment, hsegment, howner⟩ := chain.hasField
  obtain rfl := Option.some.inj (hlast.symm.trans hsegment)
  exact ⟨hlast, howner⟩

end Registry

/-- `d.KindAgrees r`: the kind of the edge `d` is the one that the registry `r` calls for. -/
def Dependency.KindAgrees (d : Dependency) (r : Registry) : Prop :=
  match d.kind with
  | .requires | .provides =>
    r.hasField d.dependedType d.dependedField = true ∧
      r.isKeyField d.dependedType d.dependedField = false
  | .key => r.isKeyField d.dependedType d.dependedField = true
  | .external =>
    d.dependedType = d.dependingType ∧ d.dependedField = d.dependingField ∧
      r.isKeyField d.dependedType d.dependedField = true ∧
      ∃ type field, r.types.get? d.dependedType = some type ∧
        type.fields.get? d.dependedField = some field ∧ ∃ e ∈ field.directives, e.MarksExternal
  | .fieldType =>
    r.fieldType? d.dependingType d.dependingField = some d.dependedType ∧
      d.dependedField = d.dependingField

/-- `d.Grounded r fs`: both ends of the edge `d` stand in the registry `r` made of the fragments
`fs`, and its path and its kind agree with them. -/
structure Dependency.Grounded (d : Dependency) (r : Registry) (fs : List TypeFragment) : Prop where
  depending : r.contains d.dependingType = true
  depended : r.contains d.dependedType = true
  path : (Path.segments d.fieldPath).getLast? = some d.dependedField
  origin : r.hasField d.dependingType d.dependingField = true ∨
    d.dependingField = entityField ∧ ∀ f ∈ fs, f.name = d.dependingType → f.isExtension = true
  kind : d.KindAgrees r

namespace Registry

variable {r : Registry} {ambient : String} {d : Dependency} {fs : List TypeFragment}

theorem IsMergeOf.forall_isExtension (merge : r.IsMergeOf fs) {name : String} {type : SchemaType}
    (known : r.types.get? name = some type) (extended : type.isExtension = true) :
    ∀ f ∈ fs, f.name = name → f.isExtension = true := by
  intro f hf hn
  rw [merge.eq_ofFragments known] at extended
  exact List.all_eq_true.mp extended f (List.mem_filter.mpr ⟨hf, decide_eq_true hn⟩)

theorem IsMergeOf.isSingle_of_dotFree (merge : r.IsMergeOf fs)
    (dotFree : ∀ f ∈ fs, ∀ e ∈ f.fields, '.' ∉ e.name.toList) {name fieldName : String}
    {type : SchemaType} {field : SchemaField} (known : r.types.get? name = some type)
    (defined : type.fields.get? fieldName = some field) : Path.isSingle fieldName = true := by
  rw [merge.eq_ofFragments known] at defined
  obtain ⟨f, hf, e, he, rfl, -⟩ := SchemaType.exists_definition_mem defined
  simpa [Path.isSingle] using dotFree f (List.mem_of_mem_filter hf) e he

/-- An edge of a field set is one of a key exactly if it leads to one. -/
theorem kindAgrees_fieldSetDependency {type : SchemaType} {field : SchemaField}
    {kind : DependencyKind} (wanted : kind = .requires ∨ kind = .provides) {target : Resolution}
    (howner : r.hasField target.owner target.field = true) (subgraph path : String) :
    (r.fieldSetDependency type field kind subgraph path target).KindAgrees r := by
  unfold Dependency.KindAgrees fieldSetDependency
  by_cases hkey : r.isKeyField target.owner target.field = true
  · rw [if_pos hkey]
    exact hkey
  · rw [if_neg hkey]
    have hkey := Bool.eq_false_iff.mpr hkey
    rcases wanted with rfl | rfl
    · exact ⟨howner, hkey⟩
    · exact ⟨howner, hkey⟩

/-- Wherever an edge is recorded it is grounded, as long as no name of a field holds a dot. -/
theorem Recorded.grounded (h : r.Recorded ambient d) (merge : r.IsMergeOf fs)
    (dotFree : ∀ f ∈ fs, ∀ e ∈ f.fields, '.' ∉ e.name.toList) : d.Grounded r fs := by
  cases h with
  | entity known listed single extended =>
    constructor
    · exact contains_of_get? known
    · exact contains_of_get? known
    · exact Path.getLast?_segments_of_isSingle single
    · exact .inr ⟨rfl, merge.forall_isExtension known extended⟩
    · exact isKeyField_of_mem known listed
  | external known listed single defined marked =>
    rw [merge.federation_eq known defined] at marked
    have hmarked := FederationDirective.exists_marksExternal.mp marked
    constructor
    · exact contains_of_get? known
    · exact contains_of_get? known
    · exact Path.getLast?_segments_of_isSingle single
    · exact .inl (hasField_of_get? known defined)
    · exact ⟨rfl, rfl, isKeyField_of_mem known listed, _, _, known, defined, hmarked⟩
  | @fieldType name fieldName type field known defined registered =>
    have htype : r.fieldType? name fieldName = some field.namedType := by
      rw [Registry.fieldType?, known, Option.bind_some, defined, Option.map_some]
    constructor
    · exact contains_of_get? known
    · exact registered
    -- the path is the field's name, so this is the one place where a dot would split it
    · exact Path.getLast?_segments_of_isSingle (merge.isSingle_of_dotFree dotFree known defined)
    · exact .inl (hasField_of_get? known defined)
    · exact ⟨htype, rfl⟩
  | fieldSet known defined _ named _ resolved =>
    obtain ⟨hlast, howner⟩ := field_of_mem_resolve resolved
    have htype := merge.keyed.types known
    have hfield := merge.keyed.fields known defined
    constructor
    · rw [fieldSetDependency, htype]
      exact contains_of_get? known
    · exact contains_of_hasField howner
    · exact hlast
    · rw [fieldSetDependency, htype, hfield]
      exact .inl (hasField_of_get? known defined)
    · exact kindAgrees_fieldSetDependency (kind_of_mem_fieldSetUses named) howner _ _

/-- Every edge of a document that was read is grounded in the document's registry. -/
theorem grounded_of_mem_dependencies {source : String} {document : Document}
    (h : Document.read source = .ok document) {ambient : String} {d : Dependency}
    (hd : d ∈ (ofDocument document).dependencies ambient) :
    d.Grounded (ofDocument document) document.fragments := by
  have merge := isMergeOf_ofDocument document
  have names := Document.named_of_read h
  refine (recorded_of_mem_dependencies merge.keyed hd).grounded merge ?_
  intro f hf e he
  exact ((names f hf).fields e he).1.dot_not_mem

/-- The key of a type that is only ever extended and that another subgraph supplies, and what a
field of that type is and needs. -/
theorem grounded_of_mem_dependencies_extended :
    let source := "extend type User @key(fields: \"id\") \x7b id: ID @external name: String " ++
      "pal: User nick: String @requires(fields: \"pal \x7b name \x7d\") \x7d"
    let edges : List Dependency := [
      ⟨"User", "_entity", "shop", "User", "id", .key, "id"⟩,
      ⟨"User", "id", "shop", "User", "id", .external, "id"⟩,
      ⟨"User", "pal", "shop", "User", "pal", .fieldType, "pal"⟩,
      ⟨"User", "nick", "shop", "User", "name", .requires, "pal.name"⟩]
    ∃ document, Document.read source = .ok document ∧
      ∀ d ∈ edges, d ∈ (ofDocument document).dependencies "shop" ∧
        d.Grounded (ofDocument document) document.fragments := by
  intro source edges
  have hread : (Document.read source).toOption.any (fun document =>
      edges.all fun d => ((ofDocument document).dependencies "shop").contains d) = true := by
    decide +kernel
  cases hdocument : Document.read source with
  | error fault =>
    rw [hdocument] at hread
    cases hread
  | ok document =>
    rw [hdocument] at hread
    refine ⟨document, rfl, fun d hd => ?_⟩
    have hmem := List.contains_iff_mem.mp (List.all_eq_true.mp hread d hd)
    exact ⟨hmem, grounded_of_mem_dependencies hdocument hmem⟩

end Registry

end FederationGraph
