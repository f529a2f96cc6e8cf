import FederationGraph.Registry.Merge

/-!
# What a registry holds

A registry holds one type for each name among the fragments it was built from.
The type is determined by the fragments of its own name, taken in order; those
of other names have no part in it. The implementations of an interface are the
types that named it while they were no interfaces themselves.
-/
namespace FederationGraph

/-- The fragments of a name, in order. -/
def fragmentsOf (name : String) (fs : List TypeFragment) : List TypeFragment :=
  fs.filter fun f => f.name = name

theorem fragmentsOf_append_singleton (name : String) (fs : List TypeFragment) (f : TypeFragment) :
    fragmentsOf name (fs ++ [f]) =
      if f.name = name then fragmentsOf name fs ++ [f] else fragmentsOf name fs := by
  rw [fragmentsOf, fragmentsOf, List.filter_append]
  split <;> simp [*]

namespace SchemaType

/-- The type that fragments make up together. -/
def ofFragments (name : String) (fs : List TypeFragment) : SchemaType where
  name := name
  fields := .ofList ((fs.flatMap TypeFragment.fields).map fun d => (d.name, .ofDefinition d))
  isInterface := fs.any TypeFragment.isInterface
  isExtension := fs.all TypeFragment.isExtension
  interfaces := distinct (fs.flatMap TypeFragment.interfaces)
  keyFields :=
    FederationDirective.keyPaths
      (FederationDirective.ofDirectives (fs.flatMap TypeFragment.directives))
  directives := fs.flatMap TypeFragment.directives

theorem unseen_absorb (f : TypeFragment) :
    (unseen f.name f.isExtension).absorb f = ofFragments f.name [f] := by
  simp [unseen, absorb, ofFragments, OrderedMap.ofList, List.foldl_map, distinct]

theorem ofFragments_absorb (name : String) (fs : List TypeFragment) (f : TypeFragment) :
    (ofFragments name fs).absorb f = ofFragments name (fs ++ [f]) := by
  simp [absorb, ofFragments, OrderedMap.ofList, List.foldl_map, distinct, appendAllNew,
    FederationDirective.keyPaths, FederationDirective.ofDirectives]

end SchemaType

/-- Whether a type named an interface in one of the fragments, before any of its own fragments,
that one included, was one of an interface. -/
def Enlists (fs : List TypeFragment) (interface name : String) : Prop :=
  ∃ seen f, seen ++ [f] <+: fs ∧ f.name = name ∧ interface ∈ f.interfaces ∧
    ∀ g ∈ seen ++ [f], g.name = name → g.isInterface = false

theorem not_enlists_nil (interface name : String) : ¬ Enlists [] interface name := by
  rintro ⟨seen, f, hp, -⟩
  simpa using List.prefix_nil.mp hp

theorem enlists_append_singleton (fs : List TypeFragment) (f : TypeFragment)
    (interface name : String) :
    Enlists (fs ++ [f]) interface name ↔ Enlists fs interface name ∨
      (interface ∈ f.interfaces ∧ (∀ g ∈ fs ++ [f], g.name = name → g.isInterface = false) ∧
        name = f.name) := by
  constructor
  · rintro ⟨seen, g, hp, hn, hi, hall⟩
    rcases List.prefix_concat_iff.mp hp with he | hp
    · obtain ⟨rfl, hg⟩ := List.append_inj' he rfl
      obtain rfl := List.head_eq_of_cons_eq hg
      exact .inr ⟨hi, hall, hn.symm⟩
    · exact .inl ⟨seen, g, hp, hn, hi, hall⟩
  · rintro (⟨seen, g, hp, hn, hi, hall⟩ | ⟨hi, hall, hn⟩)
    · exact ⟨seen, g, hp.trans (List.prefix_append fs [f]), hn, hi, hall⟩
    · exact ⟨fs, f, List.prefix_rfl, hn.symm, hi, hall⟩

namespace Registry

/-- `r` holds what the fragments make up together: for each name the type of its fragments, and for
each interface the types that enlisted. -/
structure IsMergeOf (r : Registry) (fs : List TypeFragment) : Prop where
  types : ∀ name, r.types.get? name =
    if fragmentsOf name fs = [] then none else some (.ofFragments name (fragmentsOf name fs))
  implementations : ∀ interface name,
    name ∈ r.implementationsOf interface ↔ Enlists fs interface name

theorem isMergeOf_empty : IsMergeOf empty [] where
  types _ := rfl
  implementations interface name := by
    simp [implementationsOf, empty, not_enlists_nil]

/-- What a further fragment makes of the type of its name. -/
theorem IsMergeOf.merged_eq {r : Registry} {fs : List TypeFragment} (h : r.IsMergeOf fs)
    (f : TypeFragment) : r.merged f = .ofFragments f.name (fragmentsOf f.name (fs ++ [f])) := by
  rw [merged, h.types, fragmentsOf_append_singleton, if_pos rfl]
  split
  · rename_i hnil
    rw [hnil]
    exact SchemaType.unseen_absorb f
  · exact SchemaType.ofFragments_absorb f.name _ f

theorem isInterface_ofFragments_eq_false {name : String} {fs : List TypeFragment} :
    (SchemaType.ofFragments name (fragmentsOf name fs)).isInterface = false ↔
      ∀ g ∈ fs, g.name = name → g.isInterface = false := by
  simp [SchemaType.ofFragments, fragmentsOf]

theorem mem_enlist {type : SchemaType} {names : Option (List String)} {name : String} :
    name ∈ enlist type names ↔
      name ∈ names.getD [] ∨ (type.isInterface = false ∧ name = type.name) := by
  cases ht : type.isInterface <;> simp [enlist, ht, mem_appendNew]

theorem mem_foldl_enlist (type : SchemaType) (interfaces : List String)
    (index : OrderedMap (List String)) (interface name : String) :
    name ∈ ((interfaces.foldl (fun index i => index.alter i (enlist type)) index).get?
        interface).getD [] ↔
      name ∈ (index.get? interface).getD [] ∨
        (interface ∈ interfaces ∧ type.isInterface = false ∧ name = type.name) := by
  induction interfaces generalizing index with
  | nil => simp
  | cons i rest ih =>
    rw [List.foldl_cons, ih, OrderedMap.get?_alter]
    by_cases hi : interface = i
    · subst hi
      rw [if_pos rfl, Option.getD_some, mem_enlist]
      constructor
      · rintro ((ha | hb) | ⟨-, hb⟩)
        · exact .inl ha
        · exact .inr ⟨List.mem_cons_self, hb⟩
        · exact .inr ⟨List.mem_cons_self, hb⟩
      · rintro (ha | ⟨-, hb⟩)
        · exact .inl (.inl ha)
        · exact .inl (.inr hb)
    · simp [hi]

/-- Adding a fragment keeps a registry the merge of its fragments. -/
theorem IsMergeOf.add {r : Registry} {fs : List TypeFragment} (h : r.IsMergeOf fs)
    (f : TypeFragment) : (r.add f).IsMergeOf (fs ++ [f]) where
  types name := by
    rw [Registry.add, OrderedMap.get?_insert, h.merged_eq, fragmentsOf_append_singleton name]
    by_cases hn : f.name = name
    · subst hn
      rw [if_pos rfl, if_pos rfl, if_neg (by simp), fragmentsOf_append_singleton, if_pos rfl]
    · rw [if_neg fun e => hn e.symm, if_neg hn, h.types]
  implementations interface name := by
    have hm := mem_foldl_enlist (r.merged f) f.interfaces r.implementations interface name
    rw [enlists_append_singleton, ← h.implementations]
    refine hm.trans (or_congr Iff.rfl ?_)
    rw [h.merged_eq, isInterface_ofFragments_eq_false]
    constructor
    · rintro ⟨hi, hall, rfl⟩
      exact ⟨hi, hall, rfl⟩
    · rintro ⟨hi, hall, rfl⟩
      exact ⟨hi, hall, rfl⟩

theorem IsMergeOf.foldl_add {r : Registry} {fs : List TypeFragment} (h : r.IsMergeOf fs)
    (gs : List TypeFragment) : (gs.foldl Registry.add r).IsMergeOf (fs ++ gs) := by
  induction gs generalizing r fs with
  | nil => rwa [List.append_nil]
  | cons g gs ih =>
    rw [List.foldl_cons, List.append_cons]
    exact ih (h.add g)

/-- Sorting the implementations changes none of the lists but in its order. -/
theorem IsMergeOf.settle {r : Registry} {fs : List TypeFragment} (h : r.IsMergeOf fs) :
    r.settle.IsMergeOf fs where
  types := h.types
  implementations interface name := by
    rw [← h.implementations, implementationsOf, implementationsOf, Registry.settle,
      OrderedMap.get?_map]
    cases r.implementations.get? interface with
    | none => rfl
    | some names => exact List.mem_mergeSort

theorem isMergeOf_ofDocument (document : Document) :
    (ofDocument document).IsMergeOf document.fragments :=
  (isMergeOf_empty.foldl_add document.fragments).settle

theorem IsMergeOf.eq_ofFragments {r : Registry} {fs : List TypeFragment} (h : r.IsMergeOf fs)
    {name : String} {type : SchemaType} (ht : r.types.get? name = some type) :
    type = .ofFragments name (fragmentsOf name fs) := by
  rw [h.types] at ht
  split at ht
  · cases ht
  · exact (Option.some.inj ht).symm

end Registry

/-- A field of a type comes from a definition of its name in one of the fragments. -/
theorem SchemaType.exists_definition_mem {name field : String} {fs : List TypeFragment}
    {found : SchemaField} (h : (ofFragments name fs).fields.get? field = some found) :
    ∃ f ∈ fs, ∃ d ∈ f.fields, d.name = field ∧ found = .ofDefinition d := by
  rw [ofFragments, OrderedMap.get?_ofList] at h
  obtain ⟨entry, he, rfl⟩ := Option.map_eq_some_iff.mp h
  obtain ⟨hm, hk⟩ := List.mem_filter.mp (List.mem_of_getLast? he)
  obtain ⟨d, hd, rfl⟩ := List.mem_map.mp hm
  obtain ⟨f, hf, hd⟩ := List.mem_flatMap.mp hd
  exact ⟨f, hf, d, hd, by simpa using hk, rfl⟩

theorem SchemaType.exists_definition {name field : String} {fs : List TypeFragment}
    {found : SchemaField} (h : (ofFragments name fs).fields.get? field = some found) :
    ∃ d : FieldDefinition, d.name = field ∧ found = .ofDefinition d := by
  obtain ⟨-, -, d, -, hd⟩ := exists_definition_mem h
  exact ⟨d, hd⟩

/-- The federation directives of a registered field are those among its own directives. -/
theorem Registry.IsMergeOf.federation_eq {r : Registry} {fs : List TypeFragment}
    (h : r.IsMergeOf fs) {typeName fieldName : String} {type : SchemaType} {field : SchemaField}
    (ht : r.types.get? typeName = some type) (hf : type.fields.get? fieldName = some field) :
    field.federation = FederationDirective.ofDirectives field.directives := by
  rw [h.eq_ofFragments ht] at hf
  obtain ⟨d, -, rfl⟩ := SchemaType.exists_definition hf
  rfl

end FederationGraph
