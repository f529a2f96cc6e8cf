import FederationGraph.Dependency.Record
import FederationGraph.Proofs.Dependency.Identity
import FederationGraph.Proofs.Registry.Reordering

/-!
# Edges of registries alike

Registries that are alike record the same edges, and in the same order wherever
the edges agree in everything but the path. Types and fields come in another
order, but their names tell their edges apart; keys and owners do as well, but no
two of them give edges of one identity, unless they give the same ones.
-/
namespace FederationGraph

open Dependency

namespace Registry

variable {r s : Registry}

/-- Types and fields are found under their own names. -/
structure Keyed (r : Registry) : Prop where
  types : ∀ {name type}, r.types.get? name = some type → type.name = name
  fields : ∀ {name type field found}, r.types.get? name = some type →
    type.fields.get? field = some found → found.name = field

theorem IsMergeOf.keyed {fs : List TypeFragment} (h : r.IsMergeOf fs) : r.Keyed where
  types ht := by
    rw [h.eq_ofFragments ht]
    rfl
  fields ht hf := by
    rw [h.eq_ofFragments ht] at hf
    obtain ⟨d, hn, rfl⟩ := SchemaType.exists_definition hf
    exact hn

theorem group_of_mem_fieldDependencies {ambient : String} {type : SchemaType} {field : SchemaField}
    {d : Dependency} (h : d ∈ r.fieldDependencies ambient type field) :
    d.dependingType = type.name ∧ d.dependingField = field.name := by
  rcases List.mem_append.mp h with h | h
  · rw [fieldTypeDependency] at h
    split at h
    · obtain rfl := List.mem_singleton.mp h
      exact ⟨rfl, rfl⟩
    · cases h
  · obtain ⟨use, -, h⟩ := List.mem_flatMap.mp h
    obtain ⟨selection, -, h⟩ := List.mem_flatMap.mp h
    obtain ⟨x, -, rfl⟩ := List.mem_map.mp h
    exact ⟨rfl, rfl⟩

theorem of_mem_keyDependenciesAt {ambient key : String} {type : SchemaType} {d : Dependency}
    (h : d ∈ keyDependenciesAt ambient type key) :
    d.dependingType = type.name ∧ d.dependedField = key := by
  rw [keyDependenciesAt] at h
  rcases List.mem_append.mp h with h | h <;>
    · rw [List.mem_ite_nil_right, List.mem_singleton] at h
      obtain ⟨-, rfl⟩ := h
      exact ⟨rfl, rfl⟩

theorem dependingType_of_mem_typeDependencies {ambient : String} {type : SchemaType}
    {d : Dependency} (h : d ∈ r.typeDependencies ambient type) : d.dependingType = type.name := by
  rcases List.mem_append.mp h with h | h
  · obtain ⟨key, -, h⟩ := List.mem_flatMap.mp h
    exact (of_mem_keyDependenciesAt h).1
  · obtain ⟨field, -, h⟩ := List.mem_flatMap.mp h
    exact (group_of_mem_fieldDependencies h).1

theorem sameByIdentity_keyDependencies {a b : SchemaType} (h : a.Alike b) (ambient : String) :
    SameByIdentity (keyDependencies ambient a) (keyDependencies ambient b) := by
  have hat : keyDependenciesAt ambient a = keyDependenciesAt ambient b := by
    funext key
    simp only [keyDependenciesAt, h.name, h.fields, h.isExtension]
  rw [Registry.keyDependencies, Registry.keyDependencies, hat]
  refine .flatMap_perm (h.keyFields.filter _) (List.pairwise_of_forall fun x y => ?_)
  by_cases hxy : x = y
  · exact .inl (hxy ▸ rfl)
  · refine .inr fun d hd e he hi => hxy ?_
    rw [← (of_mem_keyDependenciesAt hd).2, ← (of_mem_keyDependenciesAt he).2]
    exact congrArg Identity.dependedField hi

/-- Owners may be found in another order, but no two of them are the same. -/
theorem Alike.fieldSetDependencies (h : r.Alike s) {a b : SchemaType} (hn : a.name = b.name)
    (field : SchemaField) (fieldSet : String) (kind : DependencyKind) (subgraph : String) :
    SameByIdentity (r.fieldSetDependencies a field fieldSet kind subgraph)
      (s.fieldSetDependencies b field fieldSet kind subgraph) := by
  refine .flatMap (fun selection => ?_) _
  have hedge : r.fieldSetDependency a field kind subgraph selection.path =
      s.fieldSetDependency b field kind subgraph selection.path := by
    funext target
    simp only [fieldSetDependency, hn, h.isKeyField_eq]
  have hstart : startingType a field kind = startingType b field kind := by
    rw [startingType, startingType, hn]
  rw [hedge, hstart, List.map_eq_flatMap, List.map_eq_flatMap]
  refine .flatMap_perm (h.walk_perm _ _) ?_
  -- edges of one identity lead to one owner, and the walk lists no owner twice
  have howners := nodup_map_owner_walk r [startingType b field kind] (Path.segments selection.path)
  rw [List.nodup_iff_pairwise_ne, List.pairwise_map] at howners
  refine howners.imp fun hxy => .inr fun d hd e he hi => hxy ?_
  obtain rfl := List.mem_singleton.mp hd
  obtain rfl := List.mem_singleton.mp he
  exact congrArg Identity.dependedType hi

theorem Alike.fieldDependencies (h : r.Alike s) {a b : SchemaType} (hn : a.name = b.name)
    (ambient : String) (field : SchemaField) :
    SameByIdentity (r.fieldDependencies ambient a field) (s.fieldDependencies ambient b field) := by
  refine .append ?_ (.flatMap (fun use => h.fieldSetDependencies hn field _ _ _) _)
  have ht : r.fieldTypeDependency ambient a field = s.fieldTypeDependency ambient b field := by
    rw [fieldTypeDependency, fieldTypeDependency, h.contains_eq, hn]
  intro i
  rw [ht]

theorem Alike.typeDependencies (h : r.Alike s) (hr : r.Keyed) (hs : s.Keyed) {name : String}
    {a b : SchemaType} (ha : r.types.get? name = some a) (hb : s.types.get? name = some b)
    (hab : a.Alike b) (ambient : String) :
    SameByIdentity (r.typeDependencies ambient a) (s.typeDependencies ambient b) := by
  refine .append (sameByIdentity_keyDependencies hab ambient) ?_
  refine .values (fun i => i.group.dependingField) (fun field found hf d hd => ?_)
    (fun field found hf d hd => ?_) fun field => ?_
  · exact (group_of_mem_fieldDependencies hd).2.trans (hr.fields ha hf)
  · exact (group_of_mem_fieldDependencies hd).2.trans (hs.fields hb hf)
  · rw [hab.fields]
    cases b.fields.get? field with
    | none => exact .none
    | some found => exact .some (h.fieldDependencies hab.name ambient found)

/-- Registries that are alike record the same edges, in the same order wherever they agree in
everything but the path. -/
theorem Alike.dependencies (h : r.Alike s) (hr : r.Keyed) (hs : s.Keyed) (ambient : String) :
    SameByIdentity (r.dependencies ambient) (s.dependencies ambient) := by
  refine .values (fun i => i.group.dependingType) (fun name type ht d hd => ?_)
    (fun name type ht d hd => ?_) fun name => ?_
  · exact (dependingType_of_mem_typeDependencies hd).trans (hr.types ht)
  · exact (dependingType_of_mem_typeDependencies hd).trans (hs.types ht)
  · rcases h.cases name with ⟨ha, hb⟩ | ⟨a, b, ha, hb, hab⟩ <;> rw [ha, hb]
    · exact .none
    · exact .some (h.typeDependencies hr hs ha hb hab ambient)

end Registry

end FederationGraph
