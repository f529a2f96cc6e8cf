import FederationGraph.Proofs.OrderedMap
import FederationGraph.Proofs.Registry.Merge

/-!
# Types merged from fragments

Documents added one after the other leave one type for each name among their
fragments, in order of first appearance. What the type holds is read off the
fragments of its own name alone, wherever those of other names stand in between.
Settling the registry reorders implementations and touches no type.
-/
namespace FederationGraph

/-- `type.MergedFrom fs`: what a type holds if `fs` are its fragments, in order. -/
structure SchemaType.MergedFrom (type : SchemaType) (fs : List TypeFragment) : Prop where
  fieldNames : type.fields.keys =
    ((fs.flatMap TypeFragment.fields).map FieldDefinition.name).eraseDups
  /-- A field has the content of its last definition. -/
  fields : ∀ field, type.fields.get? field =
    ((fs.flatMap TypeFragment.fields).filter fun d => d.name = field).getLast?.map .ofDefinition
  federation : ∀ field found, type.fields.get? field = some found →
    found.federation = FederationDirective.ofDirectives found.directives
  directives : type.directives = fs.flatMap TypeFragment.directives
  keyFields : type.keyFields =
    FederationDirective.keyPaths (FederationDirective.ofDirectives type.directives)
  interfaces : type.interfaces = (fs.flatMap TypeFragment.interfaces).eraseDups
  isExtension : type.isExtension = true ↔ ∀ f ∈ fs, f.isExtension = true
  isInterface : type.isInterface = true ↔ ∃ f ∈ fs, f.isInterface = true

theorem SchemaType.mergedFrom_ofFragments (name : String) (fs : List TypeFragment) :
    (ofFragments name fs).MergedFrom fs where
  fieldNames := by
    rw [ofFragments, OrderedMap.keys_ofList, List.map_map]
    rfl
  fields field := by
    rw [ofFragments, OrderedMap.get?_ofList, List.filter_map, List.getLast?_map, Option.map_map]
    rfl
  federation field found h := by
    obtain ⟨d, -, rfl⟩ := exists_definition h
    rfl
  directives := rfl
  keyFields := rfl
  interfaces := distinct_eq_eraseDups _
  isExtension := List.all_eq_true
  isInterface := List.any_eq_true

namespace Registry

theorem keys_add (r : Registry) (f : TypeFragment) :
    (r.add f).types.keys = appendNew r.types.keys f.name :=
  r.types.keys_insert_eq_appendNew f.name _

/-- Types are registered in the order in which their names first appear. -/
theorem keys_foldl_add (fs : List TypeFragment) :
    (fs.foldl add empty).types.keys = (fs.map TypeFragment.name).eraseDups := by
  rw [← distinct_eq_eraseDups, distinct, appendAllNew, List.foldl_map]
  exact (List.foldl_hom (fun r : Registry => r.types.keys) fun r f => (r.keys_add f).symm).symm

/-- Documents added one after the other leave one type for each name of a fragment, in order of
first appearance, and the type is merged from the fragments of its name. -/
theorem types_foldl_addDocument (documents : List Document) :
    let fs := documents.flatMap Document.fragments
    let built := documents.foldl addDocument empty
    built.settle.types = built.types ∧
      built.types.keys = (fs.map TypeFragment.name).eraseDups ∧
        ∀ name type, built.types.get? name = some type →
          type.name = name ∧ type.MergedFrom (fs.filter fun f => f.name = name) := by
  intro fs built
  have hbuilt : built = fs.foldl add empty := by
    rw [List.foldl_flatMap]
    rfl
  refine ⟨rfl, hbuilt ▸ keys_foldl_add fs, ?_⟩
  intro name type ht
  have hmerge : built.IsMergeOf fs := hbuilt ▸ isMergeOf_empty.foldl_add fs
  rw [hmerge.eq_ofFragments ht]
  exact ⟨rfl, SchemaType.mergedFrom_ofFragments name _⟩

/-- A type extended in one document and defined in the next, where it repeats a field and an
interface. -/
theorem types_foldl_addDocument_extended_first :
    let key : Directive := ⟨"key", .ofList [("fields", .text "email")]⟩
    let documents : List Document := [
      [.fragment ⟨"User", false, true, ["Node"], [key],
        [⟨"id", .named "ID", []⟩, ⟨"email", .named "String", []⟩]⟩],
      [.fragment ⟨"Node", true, false, [], [], [⟨"id", .named "ID", []⟩]⟩,
        .fragment ⟨"User", false, false, ["Party", "Node"], [], [⟨"id", .named "Int", []⟩]⟩]]
    let built := documents.foldl addDocument empty
    built.types.keys = ["User", "Node"] ∧
      ∃ type, built.types.get? "User" = some type ∧ type.fields.keys = ["id", "email"] ∧
        (type.fields.get? "id").map SchemaField.namedType = some "Int" ∧
        type.keyFields = ["email"] ∧ type.interfaces = ["Node", "Party"] ∧
        type.isExtension = false := by
  intro key documents built
  obtain ⟨-, hkeys, htypes⟩ := types_foldl_addDocument documents
  have ht : built.types.get? "User" = some _ := rfl
  obtain ⟨-, merged⟩ := htypes "User" _ ht
  refine ⟨hkeys.trans (by decide), _, ht, merged.fieldNames.trans (by decide), ?_,
    merged.keyFields.trans (by decide +kernel), merged.interfaces.trans (by decide), ?_⟩
  · rw [merged.fields]
    decide
  · rw [← Bool.not_eq_true, merged.isExtension]
    decide

end Registry

end FederationGraph
