import FederationGraph.Proofs.Analysis.RoundTrip
import FederationGraph.Proofs.Document.Values
import FederationGraph.Proofs.Registry.Merge

/-!
# Answers from a stored analysis

What a document holds of arguments repeats no key, so the analysis of a document
is read back from its stored text as its finite part, unless the text is refused.
The finite part has the same stored text, the same types and dependencies, and
gives the same answers: what is told about a type is its finite part anyway.
-/
namespace FederationGraph

/-! ## Finite parts give the same answers -/

theorem Value.finitePart_finitePart (v : Value) : v.finitePart.finitePart = v.finitePart :=
  finitePart_eq_self v.isFinite_finitePart

theorem Directive.finitePart_finitePart (d : Directive) :
    d.finitePart.finitePart = d.finitePart := by
  simp [Directive.finitePart, OrderedMap.map, Value.finitePart_finitePart]

theorem SchemaField.finitePart_finitePart (f : SchemaField) :
    f.finitePart.finitePart = f.finitePart := by
  simp [SchemaField.finitePart, Directive.finitePart_finitePart]

theorem SchemaType.finitePart_finitePart (t : SchemaType) :
    t.finitePart.finitePart = t.finitePart := by
  simp [SchemaType.finitePart, OrderedMap.map, SchemaField.finitePart_finitePart,
    Directive.finitePart_finitePart]

namespace Analysis

theorem type_finitePart (a : Analysis) (name : String) :
    a.finitePart.type name = (a.type name).map SchemaType.finitePart := by
  rw [type, type, finitePart, OrderedMap.get?_map]
  cases a.registry.types.get? name <;> rfl

/-- A query looks at dependencies and at which types there are. -/
theorem query_finitePart (a : Analysis) (q : Query) : a.finitePart.query q = a.query q := by
  rw [query, query, type_finitePart]
  cases a.type q.typeName <;> rfl

theorem details_finitePart (a : Analysis) (name : String) :
    a.finitePart.details name = a.details name := by
  rw [details, details, type_finitePart]
  cases a.type name with
  | error unknown => rfl
  | ok type => simp [Except.map, SchemaType.finitePart_finitePart, finitePart, dependenciesAround]

theorem keys_finitePart (a : Analysis) :
    a.finitePart.registry.types.keys = a.registry.types.keys := by
  simp [finitePart, OrderedMap.map, OrderedMap.keys]

end Analysis

/-! ## The analysis of a document -/

theorem Directive.keysDistinct_listToValue {ds : List Directive} :
    (Directive.listToValue ds).KeysDistinct ↔ ∀ d ∈ ds, d.toValue.KeysDistinct := by
  simp [Directive.listToValue, Value.keysDistinct_list]

theorem Value.keysDistinct_texts (names : List String) : (Value.texts names).KeysDistinct := by
  simp [Value.texts, Value.keysDistinct_list]

theorem FederationDirective.keysDistinct_toValue (d : FederationDirective) :
    d.toValue.KeysDistinct := by
  have htext : ∀ s, (Value.optionalText s).KeysDistinct := by
    rintro (_ | s) <;> simp [Value.optionalText]
  cases d <;> simp [toValue, contents, Value.keysDistinct_object, htext]

/-- Entries with distinct keys have a value that repeats no key if none of their values does. -/
theorem OrderedMap.keysDistinct_map {α : Type} {m : OrderedMap α} {f : α → Value}
    (h : ∀ key value, m.get? key = some value → (f value).KeysDistinct) :
    (Value.object (m.map f).entries).KeysDistinct := by
  refine Value.keysDistinct_object.mpr ⟨(m.map f).distinct, fun entry hentry => ?_⟩
  obtain ⟨original, hm, rfl⟩ := List.mem_map.mp hentry
  exact h original.1 original.2 (OrderedMap.mem_entries.mp hm)

theorem SchemaField.keysDistinct_toValue {f : SchemaField}
    (h : ∀ d ∈ f.directives, d.toValue.KeysDistinct) : f.toValue.KeysDistinct := by
  simp [SchemaField.toValue, Value.keysDistinct_object, Value.keysDistinct_list,
    Directive.keysDistinct_listToValue.mpr h, FederationDirective.keysDistinct_toValue]

theorem SchemaType.keysDistinct_toValue {t : SchemaType}
    (hfields : ∀ name field, t.fields.get? name = some field → field.toValue.KeysDistinct)
    (h : ∀ d ∈ t.directives, d.toValue.KeysDistinct) : t.toValue.KeysDistinct := by
  simp [SchemaType.toValue, SchemaType.members, Value.keysDistinct_object,
    OrderedMap.keysDistinct_map hfields, Value.keysDistinct_texts,
    Directive.keysDistinct_listToValue.mpr h]

theorem Dependency.keysDistinct_listToValue (ds : List Dependency) :
    (Dependency.listToValue ds).KeysDistinct := by
  simp [Dependency.listToValue, Value.keysDistinct_list, Dependency.toValue,
    Value.keysDistinct_object]

theorem Registry.IsMergeOf.keysDistinct {r : Registry} {fs : List TypeFragment}
    (h : r.IsMergeOf fs) (hfs : ∀ f ∈ fs, f.KeysDistinct) {name : String} {type : SchemaType}
    (ht : r.types.get? name = some type) : type.toValue.KeysDistinct := by
  rw [h.eq_ofFragments ht]
  refine SchemaType.keysDistinct_toValue ?_ ?_
  · intro fieldName field hfield
    obtain ⟨f, hf, d, hd, -, rfl⟩ := SchemaType.exists_definition_mem hfield
    exact SchemaField.keysDistinct_toValue ((hfs f (List.mem_of_mem_filter hf)).fields d hd)
  · intro d hd
    obtain ⟨f, hf, hd⟩ := List.mem_flatMap.mp hd
    exact (hfs f (List.mem_of_mem_filter hf)).directives d hd

namespace Analysis

theorem keysDistinct_toValue {a : Analysis}
    (h : ∀ name type, a.registry.types.get? name = some type → type.toValue.KeysDistinct) :
    a.toValue.KeysDistinct := by
  have himplementations : (Value.object
      (a.registry.implementations.map Value.texts).entries).KeysDistinct :=
    OrderedMap.keysDistinct_map fun _ names _ => Value.keysDistinct_texts names
  simp [toValue, Value.keysDistinct_object, OrderedMap.keysDistinct_map h, himplementations,
    Dependency.keysDistinct_listToValue, Metadata.toValue]

theorem keysDistinct_ofDocument {source : String} {document : Document}
    (h : Document.read source = .ok document) (identifier subgraph : String) (now : Instant) :
    (ofDocument document identifier subgraph now).toValue.KeysDistinct :=
  keysDistinct_toValue fun _ _ ht =>
    (Registry.isMergeOf_ofDocument document).keysDistinct (Document.keysDistinct_of_read h) ht

theorem keysDistinct_of_ofSource {source identifier : String} {subgraph : Option String}
    {now : Instant} {a : Analysis} (h : ofSource source identifier subgraph now = .ok a) :
    a.toValue.KeysDistinct := by
  obtain ⟨document, hread, rfl⟩ := Document.exists_of_map_eq_ok h
  exact keysDistinct_ofDocument hread _ _ _

theorem analyzedAt_of_ofSource {source identifier : String} {subgraph : Option String}
    {now : Instant} {a : Analysis} (h : ofSource source identifier subgraph now = .ok a) :
    a.metadata.analyzedAt = now := by
  obtain ⟨document, -, rfl⟩ := Document.exists_of_map_eq_ok h
  rfl

/-- The stored analysis of a schema text is refused, or it gives the answers of the fresh one and
has the same stored text again. -/
theorem answers_of_ofStored {source identifier : String} {subgraph : Option String}
    {now : Instant} {a : Analysis} (hnow : now.Proper)
    (h : ofSource source identifier subgraph now = .ok a) :
    (Json.Storable a.toValue → ∃ b, ofStored a.storedText = .done b ∧
      b.storedText = a.storedText ∧ b.registry.types.keys = a.registry.types.keys ∧
      b.dependencies = a.dependencies ∧ (∀ q, b.query q = a.query q) ∧
      ∀ name, b.details name = a.details name) ∧
    (¬ Json.Storable a.toValue → ofStored a.storedText = .refuse .jsonInvalid) := by
  have hproper : a.metadata.analyzedAt.Proper := by rwa [analyzedAt_of_ofSource h]
  obtain ⟨hread, hrefused⟩ := ofStored_eq (keysDistinct_of_ofSource h) hproper
  refine ⟨fun hfits => ⟨a.finitePart, hread hfits, storedText_finitePart a, keys_finitePart a, rfl,
    query_finitePart a, details_finitePart a⟩, hrefused⟩

/-- The document that characters hold. -/
def readChars (chars : List Char) : Except Document.Fault Document :=
  match Document.scanFrom 0 chars with
  | ⟨front :: behind, fault?⟩ =>
    ((Document.Reader.definitions (behind.length + 1)).run ⟨front, behind, fault?⟩).map Prod.fst
  | ⟨[], some fault⟩ => .error fault
  | ⟨[], none⟩ => .ok []

theorem read_ofList (chars : List Char) :
    Document.read (String.ofList chars) = readChars chars := by
  rw [Document.read, Document.scan, String.toList_ofList]
  rfl

theorem ofSource_ofList (chars : List Char) (identifier : String) {subgraph : String}
    (now : Instant) (h : subgraph ≠ "") :
    ofSource (String.ofList chars) identifier (some subgraph) now =
      (readChars chars).map fun document => ofDocument document identifier subgraph now := by
  have hlabel : labelFor (some subgraph) (String.ofList chars) identifier = subgraph := by
    simp [labelFor, Registry.nonEmpty?, Option.filter, h]
  rw [ofSource, read_ofList, hlabel]

/-- Infinite numbers of both signs next to an object with a repeated key. -/
theorem answers_of_ofStored_infinite :
    let source := "type A implements I @x(v: [1e999, -1e999, 1.0, \x7bk: 1, k: [2]\x7d]) " ++
      "\x7b a: B @requires(fields: \"b\") b: Int \x7d interface I \x7b b: Int \x7d"
    let now : Instant := ⟨2024, 1, 1, 0, 0, 0, 0, some 0⟩
    ∃ a b, ofSource source "id" (some "s") now = .ok a ∧ ¬ a.toValue.IsFinite ∧
      ofStored a.storedText = .done b ∧ b.storedText = a.storedText ∧
      (∀ q, b.query q = a.query q) ∧ ∀ name, b.details name = a.details name := by
  intro source now
  have hnow : now.Proper := by decide
  have hcheck : (ofSource source "id" (some "s") now).toOption.any (fun a =>
      decide (Json.Storable a.toValue) && !decide a.toValue.IsFinite) = true := by decide +kernel
  cases ha : ofSource source "id" (some "s") now with
  | error fault =>
    rw [ha] at hcheck
    cases hcheck
  | ok a =>
    rw [ha] at hcheck
    simp only [Except.toOption, Option.any_some, Bool.and_eq_true, Bool.not_eq_true',
      decide_eq_true_eq, decide_eq_false_iff_not] at hcheck
    obtain ⟨b, hb, htext, -, -, hquery, hdetails⟩ :=
      (answers_of_ofStored hnow ha).1 hcheck.1
    exact ⟨a, b, rfl, hcheck.2, hb, htext, hquery, hdetails⟩

theorem answers_of_ofStored_nested :
    let chars := "type A @x(v: ".toList ++ List.replicate 196 '[' ++ List.replicate 196 ']' ++
      ") \x7b a: Int \x7d".toList
    let now : Instant := ⟨2024, 1, 1, 0, 0, 0, 0, some 0⟩
    ∃ a, ofSource (String.ofList chars) "id" (some "s") now = .ok a ∧
      ofStored a.storedText = .refuse .jsonInvalid := by
  intro chars now
  have hcheck : ((readChars chars).map fun document =>
      ofDocument document "id" "s" now).toOption.any (fun a =>
        !decide (Json.Storable a.toValue)) = true := by decide +kernel
  rw [← ofSource_ofList chars "id" now (by decide)] at hcheck
  cases ha : ofSource (String.ofList chars) "id" (some "s") now with
  | error fault =>
    rw [ha] at hcheck
    cases hcheck
  | ok a =>
    rw [ha] at hcheck
    simp only [Except.toOption, Option.any_some, Bool.not_eq_true',
      decide_eq_false_iff_not] at hcheck
    have hproper : a.metadata.analyzedAt.Proper := by
      rw [analyzedAt_of_ofSource ha]
      decide
    exact ⟨a, rfl, (ofStored_eq (keysDistinct_of_ofSource ha) hproper).2 hcheck⟩

end Analysis

end FederationGraph
