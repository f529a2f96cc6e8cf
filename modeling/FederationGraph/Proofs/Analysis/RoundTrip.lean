import FederationGraph.Analysis.Reading
import FederationGraph.Proofs.Json.RoundTrip
import FederationGraph.Proofs.Time.Instant

/-!
# Analyses read back from their stored text

An analysis is read back from its value, one lemma for each kind of record. The
arguments of directives have to be values without repeated keys, as those of any
dictionary are. From its stored text an analysis is read back with the finite
parts of the arguments, provided that the reader of stored values takes them: it
refuses what is nested too deeply and integers that are too long.
-/
namespace FederationGraph

namespace Reading

variable {α β : Type}

@[simp] theorem under_done (name : String) (a : α) : (Reading.done a).under name = .done a := rfl

@[simp] theorem map_done (f : α → β) (a : α) : (Reading.done a).map f = .done (f a) := rfl

@[simp] theorem and_done (f : α → β) (a : α) : (Reading.done f).and (.done a) = .done (f a) := rfl

theorem all_done (as : List α) : all (as.map Reading.done) = .done as := by
  induction as with
  | nil => rfl
  | cons a as ih => rw [List.map_cons, all, ih, map_done, and_done]

theorem mapIdx_of_forall {xs : List α} {read : Value → Reading α} {write : α → Value}
    (h : ∀ x ∈ xs, read (write x) = .done x) (name : Nat → String) :
    (xs.map write).mapIdx (fun i item => (read item).under (name i)) = xs.map Reading.done := by
  induction xs generalizing name with
  | nil => rfl
  | cons x xs ih =>
    rw [List.map_cons, List.mapIdx_cons, h x List.mem_cons_self, under_done, List.map_cons,
      ih (fun y hy => h y (List.mem_cons_of_mem _ hy)) fun i => name (i + 1)]

/-- A list is read back if each of its items is. -/
theorem list_map {xs : List α} {read : Value → Reading α} {write : α → Value}
    (h : ∀ x ∈ xs, read (write x) = .done x) : list read (.list (xs.map write)) = .done xs := by
  rw [list, mapIdx_of_forall h, all_done]

/-- A dictionary is read back if each of its values is. -/
theorem dictionary_map {m : OrderedMap α} {read : Value → Reading α} {write : α → Value}
    (h : ∀ entry ∈ m.entries, read (write entry.2) = .done entry.2) :
    dictionary read (.object (m.map write).entries) = .done m := by
  let readEntry : String × α → Reading (String × α) := fun entry =>
    ((read (write entry.2)).map fun a => (entry.1, a)).under entry.1
  have hread : ∀ entry ∈ m.entries, readEntry entry = .done entry := by
    intro entry hentry
    simp [readEntry, h entry hentry]
  have hall : dictionary read (.object (m.map write).entries) =
      (all (m.entries.map readEntry)).map OrderedMap.ofList :=
    congrArg (fun readings => (all readings).map OrderedMap.ofList) List.map_map
  rw [hall, List.map_congr_left hread, all_done, map_done, OrderedMap.ofList_entries]

theorem record_of_nodup {read : Members → Reading α} {entries : Members}
    (h : (entries.map Prod.fst).Nodup) : record read (.object entries) = read entries := by
  rw [record, Members.merged, OrderedMap.entries_ofList h]

end Reading

open Reading

theorem list_texts (names : List String) : list Reading.text (.texts names) = .done names :=
  list_map fun _ _ => rfl

-- what opens the reading of a record with given members
attribute [local simp] record_of_nodup Members.required Members.defaulted Members.value?
  List.lookup_cons Reading.text Reading.boolean Reading.integer

/-! ## Directives and types -/

theorem Directive.ofValue_toValue {d : Directive} (h : d.toValue.KeysDistinct) :
    ofValue d.toValue = .done d := by
  have harguments : (Value.object d.arguments.entries).KeysDistinct :=
    h.of_mem_object (k := "arguments") (by simp)
  have hread : dictionary anything (.object (d.arguments.map id).entries) = .done d.arguments :=
    dictionary_map fun entry hentry =>
      congrArg Reading.done (Value.merged_eq_self (harguments.of_mem_object hentry))
  have hid : (d.arguments.map id).entries = d.arguments.entries := by simp [OrderedMap.map]
  rw [hid] at hread
  simp [Directive.toValue, ofValue, hread]

theorem optional_optionalText (s : Option String) :
    optional Reading.text (Value.optionalText s) = .done s := by
  cases s <;> rfl

theorem FederationDirective.ofValue_toValue (d : FederationDirective) :
    ofValue d.toValue = .done d := by
  have hkeys : ((("kind", .text d.kindWord) :: d.contents).map Prod.fst).Nodup := by
    cases d <;> simp [contents]
  rw [toValue, ofValue, Members.merged, OrderedMap.entries_ofList hkeys]
  cases d <;> simp [kindWord, contents, readers, optionalMember, optional_optionalText]

theorem SchemaField.ofValue_toValue {f : SchemaField} (h : f.toValue.KeysDistinct) :
    ofValue f.toValue = .done f := by
  have hdirectives : list Directive.ofValue (Directive.listToValue f.directives) =
      .done f.directives := by
    refine list_map fun d hd => Directive.ofValue_toValue ?_
    have hlist : (Directive.listToValue f.directives).KeysDistinct :=
      h.of_mem_object (k := "directives") (by simp)
    exact hlist.of_mem_list (List.mem_map_of_mem hd)
  have hfederation : list FederationDirective.ofValue
      (.list (f.federation.map FederationDirective.toValue)) = .done f.federation :=
    list_map fun d _ => FederationDirective.ofValue_toValue d
  simp [SchemaField.toValue, ofValue, Directive.listOfMember, hdirectives, hfederation]

theorem SchemaType.ofValue_toValue {t : SchemaType} (h : t.toValue.KeysDistinct) :
    ofValue t.toValue = .done t := by
  have hfields : dictionary SchemaField.ofValue
      (.object (t.fields.map SchemaField.toValue).entries) = .done t.fields := by
    refine dictionary_map fun entry hentry => SchemaField.ofValue_toValue ?_
    have hobject : (Value.object (t.fields.map SchemaField.toValue).entries).KeysDistinct :=
      h.of_mem_object (k := "fields") (by simp [SchemaType.members])
    exact hobject.of_mem_object (OrderedMap.mem_entries_map hentry)
  have hdirectives : list Directive.ofValue (Directive.listToValue t.directives) =
      .done t.directives := by
    refine list_map fun d hd => Directive.ofValue_toValue ?_
    have hlist : (Directive.listToValue t.directives).KeysDistinct :=
      h.of_mem_object (k := "directives") (by simp [SchemaType.members])
    exact hlist.of_mem_list (List.mem_map_of_mem hd)
  simp [SchemaType.toValue, SchemaType.members, ofValue, Directive.listOfMember, hfields,
    hdirectives, list_texts]

/-! ## Dependencies and metadata -/

theorem Dependency.ofValue_toValue (d : Dependency) : ofValue d.toValue = .done d := by
  simp [Dependency.toValue, ofValue, DependencyKind.ofValue, DependencyKind.ofWord?_word]

theorem Metadata.ofValue_toValue {m : Metadata} (h : m.analyzedAt.Proper) :
    ofValue m.toValue = .done m := by
  have hyear : m.analyzedAt.year ≠ 0 := by have := h.year; omega
  simp [Metadata.toValue, ofValue, Reading.instant, readInstant, Instant.parse?_zonedText h, hyear]

/-! ## Analyses -/

namespace Analysis

theorem ofValue_toValue {a : Analysis} (hkeys : a.toValue.KeysDistinct)
    (htime : a.metadata.analyzedAt.Proper) : ofValue a.toValue = .done a := by
  have htypes : dictionary SchemaType.ofValue
      (.object (a.registry.types.map SchemaType.toValue).entries) = .done a.registry.types := by
    refine dictionary_map fun entry hentry => SchemaType.ofValue_toValue ?_
    have hobject : (Value.object (a.registry.types.map SchemaType.toValue).entries).KeysDistinct :=
      hkeys.of_mem_object (k := "types") (by simp)
    exact hobject.of_mem_object (OrderedMap.mem_entries_map hentry)
  have himplementations : dictionary (list Reading.text)
      (.object (a.registry.implementations.map Value.texts).entries) =
        .done a.registry.implementations :=
    dictionary_map fun entry _ => list_texts entry.2
  have hdependencies : list Dependency.ofValue (Dependency.listToValue a.dependencies) =
      .done a.dependencies :=
    list_map fun d _ => Dependency.ofValue_toValue d
  simp [toValue, ofValue, htypes, himplementations, hdependencies, Metadata.ofValue_toValue htime,
    ofParts]

/-- The analysis with the finite parts of its directives. -/
def finitePart (a : Analysis) : Analysis where
  registry := ⟨a.registry.types.map SchemaType.finitePart, a.registry.implementations⟩
  dependencies := a.dependencies
  metadata := a.metadata

end Analysis

theorem Directive.toValue_finitePart (d : Directive) :
    d.finitePart.toValue = d.toValue.finitePart := by
  simp [Directive.toValue, Directive.finitePart, OrderedMap.map]

theorem Directive.listToValue_finitePart (ds : List Directive) :
    Directive.listToValue (ds.map Directive.finitePart) =
      (Directive.listToValue ds).finitePart := by
  simp [Directive.listToValue, Directive.toValue_finitePart]

theorem Value.finitePart_texts (names : List String) :
    (Value.texts names).finitePart = .texts names := by
  simp [Value.texts]

theorem FederationDirective.finitePart_toValue (d : FederationDirective) :
    d.toValue.finitePart = d.toValue := by
  have htext : ∀ s, (Value.optionalText s).finitePart = .optionalText s := by
    rintro (_ | s) <;> rfl
  cases d <;> simp [toValue, contents, htext]

theorem SchemaField.toValue_finitePart (f : SchemaField) :
    f.finitePart.toValue = f.toValue.finitePart := by
  simp [SchemaField.toValue, SchemaField.finitePart, Directive.listToValue_finitePart,
    FederationDirective.finitePart_toValue]

theorem SchemaType.toValue_finitePart (t : SchemaType) :
    t.finitePart.toValue = t.toValue.finitePart := by
  simp [SchemaType.toValue, SchemaType.members, SchemaType.finitePart, OrderedMap.map,
    SchemaField.toValue_finitePart, Directive.listToValue_finitePart, Value.finitePart_texts]

theorem Dependency.finitePart_listToValue (ds : List Dependency) :
    (Dependency.listToValue ds).finitePart = Dependency.listToValue ds := by
  simp [Dependency.listToValue, Dependency.toValue]

namespace Analysis

theorem toValue_finitePart (a : Analysis) : a.finitePart.toValue = a.toValue.finitePart := by
  simp [toValue, finitePart, OrderedMap.map, Value.finitePart_texts, SchemaType.toValue_finitePart,
    Dependency.finitePart_listToValue, Metadata.toValue]

theorem keysDistinct_finitePart {a : Analysis} (h : a.toValue.KeysDistinct) :
    a.finitePart.toValue.KeysDistinct := by
  rw [toValue_finitePart]
  exact h.finitePart

/-- What is stored of an analysis is its finite part. -/
theorem storedText_finitePart (a : Analysis) : a.finitePart.storedText = a.storedText := by
  rw [storedText, storedText, toValue_finitePart, Json.text, Json.write_finitePart, Json.text]

/-- The stored text of an analysis is read as its finite part or refused as no JSON. -/
theorem ofStored_eq {a : Analysis} (hkeys : a.toValue.KeysDistinct)
    (htime : a.metadata.analyzedAt.Proper) :
    (Json.Storable a.toValue → ofStored a.storedText = .done a.finitePart) ∧
      (¬ Json.Storable a.toValue → ofStored a.storedText = refuse .jsonInvalid) := by
  constructor
  · intro hfits
    rw [ofStored, storedText, Json.readStored_text.mpr ⟨hfits, rfl⟩, ← toValue_finitePart]
    exact ofValue_toValue (keysDistinct_finitePart hkeys) htime
  · intro hfits
    rw [ofStored]
    split
    · rename_i v hv
      exact absurd (Json.readStored_text.mp hv).1 hfits
    · rfl

/-- Both have one value, and an analysis is read back from its value. -/
theorem finitePart_eq_self {a : Analysis} (hkeys : a.toValue.KeysDistinct)
    (hfinite : a.toValue.IsFinite) (htime : a.metadata.analyzedAt.Proper) : a.finitePart = a := by
  have h := ofValue_toValue (keysDistinct_finitePart hkeys) htime
  rw [toValue_finitePart, Value.finitePart_eq_self hfinite, ofValue_toValue hkeys htime] at h
  exact (Reading.done.inj h).symm

/-- An analysis with finite numbers only is read back as it was if the reader of stored values
takes it, and refused otherwise. -/
theorem ofStored_storedText {a : Analysis} (hkeys : a.toValue.KeysDistinct)
    (hfinite : a.toValue.IsFinite) (htime : a.metadata.analyzedAt.Proper) :
    (Json.Storable a.toValue → ofStored a.storedText = .done a) ∧
      (¬ Json.Storable a.toValue → ofStored a.storedText = refuse .jsonInvalid) := by
  have h := ofStored_eq hkeys htime
  rwa [finitePart_eq_self hkeys hfinite htime] at h

/-- One type with a directive that takes the given argument. -/
def withArgument (argument : Value) : Analysis where
  registry :=
    { types := .ofList [("A", ⟨"A", .ofList [("a", ⟨"a", "Int", false, true, [], [.external]⟩)],
        false, true, ["I"], ["a"], [⟨"x", .ofList [("v", argument)]⟩]⟩)]
      implementations := .ofList [("I", ["A"])] }
  dependencies := [⟨"A", "a", "s", "A", "a", .external, "a"⟩]
  metadata := ⟨⟨2024, 2, 29, 23, 59, 0, 5, some (-12600)⟩, "id", "s", 1, 1⟩

/-- Numbers of both kinds, texts and nested objects as arguments of a directive. -/
theorem ofStored_storedText_of_each_kind :
    let half := Binary64.ofDecimal true 5 (-1)
    let a := withArgument (.list [.null, .boolean true, .integer (-7), .float half,
      .text "\x22😀\x00", .object [("k", .object []), ("", .list [])]])
    ofStored a.storedText = .done a := by
  intro half a
  exact (ofStored_storedText (a := a) (by decide +kernel) (by decide +kernel) (by decide)).1
    (by decide +kernel)

/-- Lists nested in each other. -/
def nested : Nat → Value
  | 0 => .list []
  | depth + 1 => .list [nested depth]

theorem ofStored_storedText_of_nested :
    let a := withArgument (nested 195)
    a.toValue.KeysDistinct ∧ a.toValue.IsFinite ∧ a.metadata.analyzedAt.Proper ∧
      (∀ w ∈ a.toValue.parts, Json.isStorableInteger w = true) ∧
        ofStored a.storedText ≠ .done a := by
  intro a
  have hkeys : a.toValue.KeysDistinct := by decide +kernel
  have hproper : a.metadata.analyzedAt.Proper := by decide
  have hdeep : ¬ Json.Storable a.toValue := by decide +kernel
  refine ⟨hkeys, by decide +kernel, hproper, by decide +kernel, ?_⟩
  rw [(ofStored_eq hkeys hproper).2 hdeep]
  simp [refuse]

end Analysis

end FederationGraph
