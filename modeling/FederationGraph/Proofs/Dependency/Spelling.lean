import FederationGraph.Proofs.Dependency.FieldSetEdge
import FederationGraph.Proofs.Parts
import FederationGraph.Proofs.Registry.Spelling

/-!
# Edges of documents in two spellings

Registries that differ in directives of the same effect record the same edges in
the same order. The walk along a path sees types, fields and implementations
alone; the recording sees keys, the marks of external fields and the field sets
of directives, of which the empty ones leave no trace.
-/
namespace FederationGraph.Registry

variable {r s : Registry} {a b : SchemaType} {x y : SchemaField}

theorem SameEffect.contains_eq (h : r.SameEffect s) (name : String) :
    r.contains name = s.contains name := by
  rw [contains, contains, OrderedMap.contains, OrderedMap.contains]
  rcases h.types.get?_cases name with ⟨hr, hs⟩ | ⟨a, b, hr, hs, -⟩ <;> rw [hr, hs]
  rfl

theorem SameEffect.isKeyField_eq (h : r.SameEffect s) (name field : String) :
    r.isKeyField name field = s.isKeyField name field := by
  rw [isKeyField, isKeyField]
  rcases h.types.get?_cases name with ⟨hr, hs⟩ | ⟨a, b, hr, hs, hab⟩ <;> rw [hr, hs]
  rw [Option.any_some, Option.any_some, hab.keyFields]

theorem SameEffect.fieldType?_eq (h : r.SameEffect s) (name field : String) :
    r.fieldType? name field = s.fieldType? name field := by
  rw [fieldType?, fieldType?]
  rcases h.types.get?_cases name with ⟨hr, hs⟩ | ⟨a, b, hr, hs, hab⟩ <;> rw [hr, hs]
  rw [Option.bind_some, Option.bind_some]
  rcases hab.fields.get?_cases field with ⟨hx, hy⟩ | ⟨x, y, hx, hy, hxy⟩ <;> rw [hx, hy]
  rw [Option.map_some, Option.map_some, hxy.namedType]

/-- Whether a type defines a field shows in whether the field has a type there. -/
theorem hasField_eq_isSome_fieldType? (r : Registry) (name field : String) :
    r.hasField name field = (r.fieldType? name field).isSome := by
  rw [hasField, fieldType?]
  cases r.types.get? name with
  | none => rfl
  | some type =>
    rw [Option.any_some, Option.bind_some, Option.isSome_map]
    rfl

theorem SameEffect.hasField_eq (h : r.SameEffect s) (name field : String) :
    r.hasField name field = s.hasField name field := by
  rw [hasField_eq_isSome_fieldType?, hasField_eq_isSome_fieldType?, h.fieldType?_eq]

theorem SameEffect.definingImplementations_eq (h : r.SameEffect s) (interface field : String) :
    r.definingImplementations interface field = s.definingImplementations interface field := by
  rw [definingImplementations, definingImplementations, implementationsOf, implementationsOf,
    h.implementations]
  simp only [h.hasField_eq]

theorem SameEffect.owners_eq (h : r.SameEffect s) (name field : String) :
    r.owners name field = s.owners name field := by
  rw [owners, owners]
  rcases h.types.get?_cases name with ⟨hr, hs⟩ | ⟨a, b, hr, hs, hab⟩ <;> rw [hr, hs]
  have hfield : a.fields.contains field = b.fields.contains field := by
    rw [← r.hasField_eq hr, ← s.hasField_eq hs, h.hasField_eq]
  simp only [hab.isInterface, h.definingImplementations_eq, hfield]

theorem SameEffect.resolveField_eq (h : r.SameEffect s) : r.resolveField = s.resolveField := by
  funext field name
  simp only [resolveField, h.owners_eq, h.fieldType?_eq]

/-- Every path resolves to the same owners in the same order. -/
theorem SameEffect.walk_eq (h : r.SameEffect s) (cursors segments : List String) :
    r.walk cursors segments = s.walk cursors segments := by
  fun_induction walk r cursors segments with
  | case1 => rfl
  | case2 cursors last => rw [walk, h.resolveField_eq]
  | case3 cursors segment rest hne ih =>
    obtain ⟨next, rest, rfl⟩ := List.exists_cons_of_ne_nil hne
    rw [ih, follow, h.resolveField_eq]
    rfl

theorem SameEffect.fieldSetDependencies_eq (h : r.SameEffect s) (hab : a.SameEffect b)
    (hxy : x.SameEffect y) (fieldSet : String) (kind : DependencyKind) (subgraph : String) :
    r.fieldSetDependencies a x fieldSet kind subgraph =
      s.fieldSetDependencies b y fieldSet kind subgraph := by
  have hstart : startingType a x kind = startingType b y kind := by
    rw [startingType, startingType, hab.name, hxy.namedType]
  have hedge : r.fieldSetDependency a x kind subgraph = s.fieldSetDependency b y kind subgraph := by
    funext path target
    simp only [fieldSetDependency, hab.name, hxy.name, h.isKeyField_eq]
  simp only [fieldSetDependencies, resolve, hstart, hedge, h.walk_eq]

/-- Only field sets that are not empty are recorded with effect. -/
theorem directiveDependencies_eq_effectiveUses (r : Registry) (ambient : String) (type : SchemaType)
    (field : SchemaField) : r.directiveDependencies ambient type field =
      (FederationDirective.effectiveUses ambient field.federation).flatMap
        (r.useDependencies type field) := by
  rw [directiveDependencies, FederationDirective.effectiveUses]
  induction field.federation.flatMap (fieldSetUses ambient) with
  | nil => rfl
  | cons use uses ih =>
    rw [List.flatMap_cons, ih]
    by_cases hu : use.fieldSet = ""
    · rw [List.filter_cons_of_neg (by simp [hu]), hu, fieldSetDependencies_empty, List.nil_append]
    · rw [List.filter_cons_of_pos (by simp [hu]), List.flatMap_cons]
      rfl

theorem SameEffect.fieldDependencies_eq (h : r.SameEffect s) (hab : a.SameEffect b)
    (hxy : x.SameEffect y) (ambient : String) :
    r.fieldDependencies ambient a x = s.fieldDependencies ambient b y := by
  have huse : r.useDependencies a x = s.useDependencies b y := by
    funext use
    exact h.fieldSetDependencies_eq hab hxy _ _ _
  rw [fieldDependencies, fieldDependencies, fieldTypeDependency, fieldTypeDependency,
    directiveDependencies_eq_effectiveUses, directiveDependencies_eq_effectiveUses, huse,
    hxy.federation.uses, hxy.namedType, hxy.name, hab.name, h.contains_eq]

theorem keyDependencies_eq (hab : a.SameEffect b) (ambient : String) :
    keyDependencies ambient a = keyDependencies ambient b := by
  have hexternal : ∀ key,
      (a.fields.get? key).any (fun x => x.federation.any FederationDirective.isExternal) =
        (b.fields.get? key).any fun y => y.federation.any FederationDirective.isExternal := by
    intro key
    rcases hab.fields.get?_cases key with ⟨hx, hy⟩ | ⟨x, y, hx, hy, hxy⟩ <;> rw [hx, hy]
    exact hxy.federation.external
  have hat : keyDependenciesAt ambient a = keyDependenciesAt ambient b := by
    funext key
    simp only [keyDependenciesAt, hab.name, hab.isExtension, hexternal]
  rw [keyDependencies, keyDependencies, hat, hab.keyFields]

theorem SameEffect.dependencies_eq (h : r.SameEffect s) (ambient : String) :
    r.dependencies ambient = s.dependencies ambient := by
  refine flatMap_eq_of_forall₂ h.types.values fun a b hab => ?_
  rw [typeDependencies, typeDependencies, keyDependencies_eq hab]
  congr 1
  refine flatMap_eq_of_forall₂ hab.fields.values fun x y hxy => ?_
  exact h.fieldDependencies_eq hab hxy ambient

/-- However the federation directives of a document are spelled, every type has the same keys, and
the same edges are recorded in the same order. -/
theorem dependencies_eq_of_respelled {d e : Document} (h : d.Respelled e) (ambient : String) :
    let r := ofDocument d
    let s := ofDocument e
    (∀ name, (r.types.get? name).map SchemaType.keyFields =
        (s.types.get? name).map SchemaType.keyFields) ∧
      r.dependencies ambient = s.dependencies ambient := by
  intro r s
  have hrs : r.SameEffect s := sameEffect_ofDocument h
  refine ⟨fun name => ?_, hrs.dependencies_eq ambient⟩
  rcases hrs.types.get?_cases name with ⟨hr, hs⟩ | ⟨a, b, hr, hs, hab⟩ <;> rw [hr, hs]
  rw [Option.map_some, Option.map_some, hab.keyFields]

/-- A key, an external field, a requirement and a provision without its argument. -/
theorem dependencies_eq_of_respelled_each :
    let join (name argument : String) (value : Value) : Directive :=
      ⟨name, .ofList [(argument, value)]⟩
    let document (key external requires provides : Directive) : Document := [
      .other,
      .fragment ⟨"User", false, true, [], [key],
        [⟨"id", .named "ID", [external]⟩, ⟨"name", .named "String", [requires, provides]⟩]⟩]
    let d := document (join "key" "fields" (.text "id")) ⟨"external", .empty⟩
      (join "requires" "fields" (.text "id")) ⟨"provides", .empty⟩
    let e := document (join "join__type" "key" (.text "id"))
      (join "join__field" "external" (.boolean true))
      (join "join__field" "requires" (.text "id")) ⟨"join__field", .empty⟩
    d.Respelled e ∧ ((ofDocument d).dependencies "shop").length = 3 ∧
      (ofDocument d).dependencies "shop" = (ofDocument e).dependencies "shop" := by
  intro join document d e
  have hkey : Directive.Respelled (join "key" "fields" (.text "id"))
      (join "join__type" "key" (.text "id")) := .key rfl (Directive.joinsBy_single _ _ _)
  have hexternal : Directive.Respelled ⟨"external", .empty⟩
      (join "join__field" "external" (.boolean true)) :=
    .external rfl (Directive.joinsBy_single _ _ _)
  have hrequires : Directive.Respelled (join "requires" "fields" (.text "id"))
      (join "join__field" "requires" (.text "id")) :=
    .requires rfl (Directive.joinsBy_single _ _ _)
  have hprovides : Directive.Respelled ⟨"provides", .empty⟩ ⟨"join__field", .empty⟩ :=
    .provides rfl (Directive.joinsBy_empty _ _)
  have h : d.Respelled e :=
    .cons .other <| .cons (.fragment ⟨rfl, rfl, rfl, rfl, .cons hkey .nil,
      .cons ⟨rfl, rfl, .cons hexternal .nil⟩ <|
      .cons ⟨rfl, rfl, .cons hrequires (.cons hprovides .nil)⟩ .nil⟩) .nil
  exact ⟨h, by decide +kernel, (dependencies_eq_of_respelled h "shop").2⟩

end FederationGraph.Registry
