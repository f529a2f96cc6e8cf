import FederationGraph.Analysis.Basic
import FederationGraph.Proofs.FieldSet.Scope
import FederationGraph.Proofs.OrderedMap
import FederationGraph.Proofs.Path
import FederationGraph.Proofs.Registry.Chain
import FederationGraph.Proofs.Registry.Implementations

/-!
# Checked analyses

An analysis takes names off the path of a field set, looks up the owners of
fields and the fields of owners, goes to the last segment of a path, and sorts
implementing types by where they were registered. Nothing at those places says
that there is a name, an owner, a field, a segment or a place.

Below they are looked up step by step, and a look-up that finds nothing gives the
whole analysis up; a name with a question mark is that of the checked version of the
definition without it. No document makes that happen: the braces of a field set that
belong to names are as many as the names on its path, owners define the field
that they own, paths have a segment, and only registered types are listed as
implementations.
-/
namespace FederationGraph

variable {α β : Type}

theorem mapM_eq_some_map {f : α → Option β} {g : α → β} {xs : List α}
    (h : ∀ x ∈ xs, f x = some (g x)) : xs.mapM f = some (xs.map g) := by
  induction xs with
  | nil => rfl
  | cons x xs ih =>
    have hx := h x List.mem_cons_self
    have hxs := ih fun y hy => h y (List.mem_cons_of_mem x hy)
    simp [hx, hxs]

/-- What is put together from the parts of elements, if every element has its part. -/
def collect? (xs : List α) (f : α → Option (List β)) : Option (List β) :=
  (xs.mapM f).map List.flatten

theorem collect?_eq {f : α → Option (List β)} {g : α → List β} {xs : List α}
    (h : ∀ x ∈ xs, f x = some (g x)) : collect? xs f = some (xs.flatMap g) := by
  rw [collect?, mapM_eq_some_map h, Option.map_some, List.flatMap_def]

/-! ## Field sets -/

namespace FieldSet

/-- The cursor behind a token when every name is put on the path and taken off it again, unless the
path is empty then. -/
def Cursor.advance? (c : Cursor) (token : Token) (rest : List Token) : Option Cursor :=
  match token with
  | .opening => some ⟨c.path, c.opens :: c.scopes, false⟩
  | .closing =>
    match c.scopes with
    | true :: scopes => c.path.tail?.map fun path => ⟨path, scopes, c.opens⟩
    | false :: scopes => some ⟨c.path, scopes, c.opens⟩
    | [] => some c
  | .name text =>
    if rest.head? = some .opening then some ⟨text :: c.path, c.scopes, true⟩
    else (text :: c.path).tail?.map fun path => ⟨path, c.scopes, false⟩

def selectionsFrom? (c : Cursor) : List Token → Option (List Selection)
  | [] => some []
  | .name text :: rest =>
    (c.advance? (.name text) rest).bind fun next =>
      (selectionsFrom? next rest).map fun found => c.select text :: found
  | brace :: rest => (c.advance? brace rest).bind fun next => selectionsFrom? next rest

def selections? (fieldSet : String) : Option (List Selection) :=
  selectionsFrom? .start (tokens fieldSet)

/-- Where a scope of a name is closed, that name is on the path. -/
theorem advance?_within (scopes : List (Option String)) (before : Option String) (token : Token)
    (rest : List Token) :
    (Cursor.within scopes before (token :: rest)).advance? token rest =
      some ((Cursor.within scopes before (token :: rest)).advance token rest) := by
  cases token with
  | opening => rfl
  | closing => rcases scopes with _ | ⟨_ | name, scopes⟩ <;> rfl
  | name text =>
    rw [Cursor.advance?, Cursor.advance]
    split <;> rfl

theorem selectionsFrom?_within (scopes : List (Option String)) (before : Option String)
    (tokens : List Token) :
    selectionsFrom? (.within scopes before tokens) tokens =
      some (selectionsFrom (.within scopes before tokens) tokens) := by
  induction tokens generalizing scopes before with
  | nil => rfl
  | cons token rest ih =>
    have hstep := advance?_within scopes before token rest
    cases token with
    | opening =>
      rw [selectionsFrom?, hstep, Option.bind_some, advance_opening, ih, selectionsFrom,
        advance_opening]
      all_goals simp
    | closing =>
      rw [selectionsFrom?, hstep, Option.bind_some, advance_closing, ih, selectionsFrom,
        advance_closing]
      all_goals simp
    | name text =>
      rw [selectionsFrom?, hstep, Option.bind_some, advance_name, ih, selectionsFrom, advance_name]
      rfl

theorem selections?_eq (fieldSet : String) : selections? fieldSet = some (selections fieldSet) := by
  rw [selections?, selections, ← Cursor.within_nil (tokens fieldSet), selectionsFrom?_within]

end FieldSet

/-! ## Merging -/

def FederationDirective.keyPaths? (directives : List FederationDirective) :
    Option (List String) :=
  collect? (directives.filterMap keyFieldSet?) fun fieldSet =>
    (FieldSet.selections? fieldSet).map fun found => found.map FieldSet.Selection.path

theorem FederationDirective.keyPaths?_eq (directives : List FederationDirective) :
    keyPaths? directives = some (keyPaths directives) :=
  collect?_eq fun fieldSet _ => by rw [FieldSet.selections?_eq, Option.map_some]

namespace Registry

def merged? (r : Registry) (f : TypeFragment) : Option SchemaType :=
  let type := (r.types.get? f.name).getD (.unseen f.name f.isExtension)
  (FederationDirective.keyPaths? (FederationDirective.ofDirectives f.directives)).map fun paths =>
    { type.absorb f with keyFields := type.keyFields ++ paths }

def add? (r : Registry) (f : TypeFragment) : Option Registry :=
  (r.merged? f).map fun type =>
    { types := r.types.insert f.name type
      implementations :=
        f.interfaces.foldl (fun index interface => index.alter interface (enlist type))
          r.implementations }

def addDocument? (r : Registry) (document : Document) : Option Registry :=
  document.fragments.foldlM add? r

/-- Names by the positions at which the types of those names were registered. -/
def byPosition? (r : Registry) (names : List String) : Option (List String) :=
  (names.mapM fun name => (r.types.keys.idxOf? name).map fun position => (position, name)).map
    fun placed => (placed.mergeSort fun a b => a.1 ≤ b.1).map Prod.snd

def settle? (r : Registry) : Option Registry :=
  (r.implementations.entries.mapM fun entry =>
    (r.byPosition? entry.2).map fun names => (entry.1, names)).map fun entries =>
      ⟨r.types, .ofList entries⟩

def ofDocument? (document : Document) : Option Registry :=
  (empty.addDocument? document).bind settle?

theorem add?_eq (r : Registry) (f : TypeFragment) : r.add? f = some (r.add f) := by
  rw [add?, merged?, FederationDirective.keyPaths?_eq]
  rfl

theorem addDocument?_eq (r : Registry) (document : Document) :
    r.addDocument? document = some (r.addDocument document) := by
  rw [addDocument?, addDocument]
  induction document.fragments generalizing r with
  | nil => rfl
  | cons f rest ih =>
    rw [List.foldlM_cons, add?_eq, List.foldl_cons]
    exact ih (r.add f)

theorem byPosition?_eq {r : Registry} {names : List String}
    (h : ∀ name ∈ names, name ∈ r.types.keys) :
    r.byPosition? names = some (names.mergeSort r.registeredBefore) := by
  let placed (name : String) : Nat × String := (r.types.keys.idxOf name, name)
  have hplaced : ∀ name ∈ names, ((r.types.keys.idxOf? name).map fun position =>
      (position, name)) = some (placed name) := by
    intro name hname
    obtain ⟨position, hp⟩ := Option.isSome_iff_exists.mp (List.isSome_idxOf?.mpr (h name hname))
    simp only [placed, List.idxOf_eq_getD_idxOf?, hp, Option.map_some, Option.getD_some]
  have hsorted : ((names.map placed).mergeSort fun a b => a.1 ≤ b.1).map Prod.snd =
      ((names.map placed).map Prod.snd).mergeSort r.registeredBefore := by
    refine List.map_mergeSort fun a ha b hb => ?_
    obtain ⟨first, -, rfl⟩ := List.mem_map.mp ha
    obtain ⟨second, -, rfl⟩ := List.mem_map.mp hb
    rfl
  have hnames : (names.map placed).map Prod.snd = names := by
    rw [List.map_map]
    exact List.map_id names
  rw [byPosition?, mapM_eq_some_map hplaced, Option.map_some, hsorted, hnames]

theorem Indexed.settle?_eq {r : Registry} (h : r.Indexed) : r.settle? = some r.settle := by
  have hregistered : ∀ entry ∈ r.implementations.entries, ∀ name ∈ entry.2,
      name ∈ r.types.keys := by
    intro entry hentry name hname
    have hlisted : name ∈ r.implementationsOf entry.1 := by
      rw [implementationsOf, OrderedMap.mem_entries.mp hentry]
      exact hname
    obtain ⟨type, ht, -⟩ := h.listed entry.1 name hlisted
    rw [OrderedMap.mem_keys, ht, Option.isSome_some]
  have hentries : ∀ entry ∈ r.implementations.entries,
      ((r.byPosition? entry.2).map fun names => (entry.1, names)) =
        some (entry.1, entry.2.mergeSort r.registeredBefore) := by
    intro entry hentry
    rw [byPosition?_eq (hregistered entry hentry), Option.map_some]
  rw [settle?, mapM_eq_some_map hentries, Option.map_some]
  have hmap : OrderedMap.ofList (r.implementations.entries.map fun entry =>
      (entry.1, entry.2.mergeSort r.registeredBefore)) = r.settle.implementations :=
    OrderedMap.ofList_entries r.settle.implementations
  rw [hmap]
  rfl

theorem ofDocument?_eq (document : Document) :
    ofDocument? document = some (ofDocument document) := by
  rw [ofDocument?, addDocument?_eq, Option.bind_some]
  exact (indexed_empty.addDocument document).settle?_eq

/-! ## Resolving -/

def resolveField? (r : Registry) (field typeName : String) : Option (List Resolution) :=
  (r.owners typeName field).mapM fun owner =>
    (r.fieldType? owner field).map fun fieldType => ⟨owner, field, fieldType⟩

/-- What the last of the given segments resolves to from any of the given types. A walk that has no
type to go on from ends early. -/
def walk? (r : Registry) (cursors : List String) : List String → Option (List Resolution)
  | [] => none
  | [last] => (collect? cursors (r.resolveField? last)).map distinct
  | segment :: rest =>
    (collect? cursors (r.resolveField? segment)).bind fun found =>
      let reached := distinct (found.map Resolution.fieldType)
      if reached.isEmpty then some [] else walk? r reached rest

def resolve? (r : Registry) (path start : String) : Option (List Resolution) :=
  r.walk? [start] (Path.segments path)

/-- Owners are registered and define the field. -/
theorem resolveField?_eq (r : Registry) (field typeName : String) :
    r.resolveField? field typeName = some (r.resolveField field typeName) := by
  have howners : ∀ owner ∈ r.owners typeName field,
      ∃ fieldType, r.fieldType? owner field = some fieldType := fun owner ho =>
    exists_fieldType (mem_owners.mp ho).hasField
  rw [resolveField?, resolveField]
  generalize r.owners typeName field = owners at howners ⊢
  induction owners with
  | nil => rfl
  | cons owner rest ih =>
    obtain ⟨fieldType, hfield⟩ := howners owner List.mem_cons_self
    have hrest := ih fun o ho => howners o (List.mem_cons_of_mem _ ho)
    simp [hfield, hrest]

theorem walk_nil (r : Registry) (segments : List String) : r.walk [] segments = [] := by
  match segments with
  | [] => rfl
  | [last] => rfl
  | segment :: next :: rest => exact r.walk_nil (next :: rest)

theorem walk?_eq (r : Registry) (cursors : List String) {segments : List String}
    (h : segments ≠ []) : r.walk? cursors segments = some (r.walk cursors segments) := by
  fun_induction walk r cursors segments with
  | case1 => exact absurd rfl h
  | case2 cursors last =>
    rw [walk?, collect?_eq fun cursor _ => r.resolveField?_eq last cursor, Option.map_some]
  | case3 cursors segment rest hne ih =>
    have hreached : distinct ((cursors.flatMap (r.resolveField segment)).map
        Resolution.fieldType) = r.follow cursors segment := by
      rw [List.map_flatMap, follow]
    rw [walk?, collect?_eq fun cursor _ => r.resolveField?_eq segment cursor, Option.bind_some,
      hreached]
    · dsimp only
      split
      · -- the plain walk goes on without a type, and finds nothing
        rename_i hempty
        rw [List.isEmpty_iff.mp hempty, walk_nil]
      · exact ih hne
    · exact hne

theorem resolve?_eq (r : Registry) (path start : String) :
    r.resolve? path start = some (r.resolve path start) :=
  r.walk?_eq [start] (Path.segments_ne_nil path)

/-! ## Recording -/

def fieldSetDependencies? (r : Registry) (type : SchemaType) (field : SchemaField)
    (fieldSet : String) (kind : DependencyKind) (subgraph : String) : Option (List Dependency) :=
  (FieldSet.selections? fieldSet).bind fun found =>
    collect? found fun selection =>
      (r.resolve? selection.path (startingType type field kind)).map fun targets =>
        targets.map (r.fieldSetDependency type field kind subgraph selection.path)

def fieldDependencies? (r : Registry) (subgraph : String) (type : SchemaType)
    (field : SchemaField) : Option (List Dependency) :=
  (collect? (field.federation.flatMap (fieldSetUses subgraph)) fun use =>
    r.fieldSetDependencies? type field use.fieldSet use.kind use.subgraph).map fun found =>
      r.fieldTypeDependency subgraph type field ++ found

def typeDependencies? (r : Registry) (subgraph : String) (type : SchemaType) :
    Option (List Dependency) :=
  (collect? type.fields.values (r.fieldDependencies? subgraph type)).map fun found =>
    keyDependencies subgraph type ++ found

def dependencies? (r : Registry) (subgraph : String) : Option (List Dependency) :=
  collect? r.types.values (r.typeDependencies? subgraph)

theorem fieldSetDependencies?_eq (r : Registry) (type : SchemaType) (field : SchemaField)
    (fieldSet : String) (kind : DependencyKind) (subgraph : String) :
    r.fieldSetDependencies? type field fieldSet kind subgraph =
      some (r.fieldSetDependencies type field fieldSet kind subgraph) := by
  rw [fieldSetDependencies?, FieldSet.selections?_eq, Option.bind_some]
  exact collect?_eq fun selection _ => by rw [resolve?_eq, Option.map_some]

theorem fieldDependencies?_eq (r : Registry) (subgraph : String) (type : SchemaType)
    (field : SchemaField) :
    r.fieldDependencies? subgraph type field = some (r.fieldDependencies subgraph type field) := by
  rw [fieldDependencies?, collect?_eq fun use _ => r.fieldSetDependencies?_eq type field
    use.fieldSet use.kind use.subgraph, Option.map_some]
  rfl

theorem typeDependencies?_eq (r : Registry) (subgraph : String) (type : SchemaType) :
    r.typeDependencies? subgraph type = some (r.typeDependencies subgraph type) := by
  rw [typeDependencies?, collect?_eq fun field _ => r.fieldDependencies?_eq subgraph type field,
    Option.map_some]
  rfl

theorem dependencies?_eq (r : Registry) (subgraph : String) :
    r.dependencies? subgraph = some (r.dependencies subgraph) :=
  collect?_eq fun type _ => r.typeDependencies?_eq subgraph type

end Registry

/-! ## Analyses -/

/-- The analysis of a document under a label, if no look-up on the way finds nothing. -/
def Analysis.ofDocument? (document : Document) (identifier subgraph : String) (now : Instant) :
    Option Analysis :=
  (Registry.ofDocument? document).bind fun registry =>
    (registry.dependencies? subgraph).map fun dependencies =>
      { registry
        dependencies
        metadata := ⟨now, identifier, subgraph, registry.types.size, dependencies.length⟩ }

/-- Every document has its analysis: nothing that is looked up on the way is missing. -/
theorem Analysis.ofDocument?_eq_some (document : Document) (identifier subgraph : String)
    (now : Instant) :
    ofDocument? document identifier subgraph now =
      some (ofDocument document identifier subgraph now) := by
  rw [ofDocument?, Registry.ofDocument?_eq, Option.bind_some, Registry.dependencies?_eq,
    Option.map_some]
  rfl

end FederationGraph
