import FederationGraph.Proofs.OrderedMap
import FederationGraph.Value
import Mathlib.Order.Lattice

/-!
# Parts of a value

A value's parts are the value itself and everything inside of it, so that what
holds of all numbers or of all objects in a value is said of its parts. Taking
the finite part of a value changes no more than single numbers, and merging
entries changes nothing where no object repeats a key.
-/
namespace FederationGraph.Value

/-- Induction over values; a list or object is reached from everything it holds. -/
@[elab_as_elim, induction_eliminator]
theorem ind {motive : Value → Prop} (null : motive .null) (boolean : ∀ b, motive (.boolean b))
    (integer : ∀ n, motive (.integer n)) (float : ∀ x, motive (.float x))
    (text : ∀ s, motive (.text s))
    (list : ∀ items, (∀ item ∈ items, motive item) → motive (.list items))
    (object : ∀ entries : Members, (∀ entry ∈ entries, motive entry.2) → motive (.object entries))
    (v : Value) : motive v :=
  @Value.rec motive (fun items => ∀ item ∈ items, motive item)
    (fun entries => ∀ entry ∈ entries, motive entry.2) (fun entry => motive entry.2)
    null boolean integer float text list object
    (by simp) (fun _ _ hitem hrest => List.forall_mem_cons.mpr ⟨hitem, hrest⟩)
    (by simp) (fun _ _ hentry hrest => List.forall_mem_cons.mpr ⟨hentry, hrest⟩)
    (fun _ _ hvalue => hvalue) v

/-! ## Parts -/

mutual
/-- The value and everything inside of it. -/
def parts : Value → List Value
  | .list items => .list items :: itemsParts items
  | .object entries => .object entries :: entriesParts entries
  | other => [other]

/-- The parts of the items of a list. -/
def itemsParts : List Value → List Value
  | [] => []
  | item :: rest => item.parts ++ itemsParts rest

/-- The parts of the values of an object. -/
def entriesParts : Members → List Value
  | [] => []
  | (_, value) :: rest => value.parts ++ entriesParts rest
end

theorem itemsParts_eq (items : List Value) : itemsParts items = items.flatMap parts := by
  induction items with
  | nil => rfl
  | cons item rest ih => rw [itemsParts, ih, List.flatMap_cons]

theorem entriesParts_eq (entries : Members) :
    entriesParts entries = entries.flatMap fun entry => entry.2.parts := by
  induction entries with
  | nil => rfl
  | cons entry rest ih => rw [entriesParts, ih, List.flatMap_cons]

theorem parts_list (items : List Value) :
    (Value.list items).parts = .list items :: items.flatMap parts := by
  rw [parts, itemsParts_eq]

theorem parts_object (entries : Members) :
    (Value.object entries).parts =
      .object entries :: entries.flatMap fun entry => entry.2.parts := by
  rw [parts, entriesParts_eq]

theorem self_mem_parts (v : Value) : v ∈ v.parts := by
  cases v <;> simp [parts]

theorem parts_subset_of_mem_list {items : List Value} {item : Value} (h : item ∈ items) :
    item.parts ⊆ (Value.list items).parts := by
  intro w hw
  rw [parts_list]
  exact List.mem_cons_of_mem _ (List.mem_flatMap.mpr ⟨item, h, hw⟩)

theorem parts_subset_of_mem_object {entries : Members} {entry : String × Value}
    (h : entry ∈ entries) : entry.2.parts ⊆ (Value.object entries).parts := by
  intro w hw
  rw [parts_object]
  exact List.mem_cons_of_mem _ (List.mem_flatMap.mpr ⟨entry, h, hw⟩)

/-! ## Depth -/

mutual
/-- How deep the lists and objects that hold anything are nested. -/
def depth : Value → Nat
  | .list items => itemsDepth items
  | .object entries => entriesDepth entries
  | _ => 0

/-- The depth of a list. -/
def itemsDepth : List Value → Nat
  | [] => 0
  | item :: rest => max (item.depth + 1) (itemsDepth rest)

/-- The depth of an object. -/
def entriesDepth : Members → Nat
  | [] => 0
  | (_, value) :: rest => max (value.depth + 1) (entriesDepth rest)
end

theorem itemsDepth_le_iff {items : List Value} {bound : Nat} :
    itemsDepth items ≤ bound ↔ ∀ item ∈ items, item.depth + 1 ≤ bound := by
  induction items with
  | nil => simp [itemsDepth]
  | cons item rest ih => rw [itemsDepth, Nat.max_le, ih, List.forall_mem_cons]

theorem entriesDepth_le_iff {entries : Members} {bound : Nat} :
    entriesDepth entries ≤ bound ↔ ∀ entry ∈ entries, entry.2.depth + 1 ≤ bound := by
  induction entries with
  | nil => simp [entriesDepth]
  | cons entry rest ih => rw [entriesDepth, Nat.max_le, ih, List.forall_mem_cons]

/-! ## Finite parts -/

/-- Whether a value is no number that fails to be finite. -/
def isFiniteNumber : Value → Bool
  | .float x => x.isFinite
  | _ => true

/-- Whether all numbers in a value are finite. -/
def IsFinite (v : Value) : Prop := ∀ x, .float x ∈ v.parts → x.isFinite = true

instance (v : Value) : Decidable v.IsFinite :=
  decidable_of_iff (∀ w ∈ v.parts, w.isFiniteNumber = true) <| by
    constructor
    · exact fun h x hx => h _ hx
    · intro h w hw
      cases w with
      | float x => exact h x hw
      | _ => rfl

theorem finiteItems_eq (items : List Value) : finiteItems items = items.map finitePart := by
  induction items with
  | nil => rfl
  | cons item rest ih => rw [finiteItems, ih, List.map_cons]

theorem finiteEntries_eq (entries : Members) :
    finiteEntries entries = entries.map fun entry => (entry.1, entry.2.finitePart) := by
  induction entries with
  | nil => rfl
  | cons entry rest ih => rw [finiteEntries, ih, List.map_cons]

@[simp] theorem finitePart_null : Value.null.finitePart = .null := rfl

@[simp] theorem finitePart_boolean (b : Bool) : (Value.boolean b).finitePart = .boolean b := rfl

@[simp] theorem finitePart_integer (n : Int) : (Value.integer n).finitePart = .integer n := rfl

@[simp] theorem finitePart_text (s : String) : (Value.text s).finitePart = .text s := rfl

@[simp] theorem finitePart_list (items : List Value) :
    (Value.list items).finitePart = .list (items.map finitePart) := by
  rw [finitePart, finiteItems_eq]

@[simp] theorem finitePart_object (entries : Members) :
    (Value.object entries).finitePart =
      .object (entries.map fun entry => (entry.1, entry.2.finitePart)) := by
  rw [finitePart, finiteEntries_eq]

theorem parts_finitePart (v : Value) : v.finitePart.parts = v.parts.map finitePart := by
  induction v with
  | null | boolean | integer | text => rfl
  | float x => rw [finitePart]; split <;> simp [parts, finitePart, *]
  | list items ih =>
    rw [finitePart_list, parts_list, parts_list, List.map_cons, finitePart_list,
      List.map_flatMap, List.flatMap_map]
    exact congrArg _ (List.flatMap_congr ih)
  | object entries ih =>
    rw [finitePart_object, parts_object, parts_object, List.map_cons, finitePart_object,
      List.map_flatMap, List.flatMap_map]
    exact congrArg _ (List.flatMap_congr ih)

theorem depth_finitePart (v : Value) : v.finitePart.depth = v.depth := by
  induction v with
  | null | boolean | integer | text => rfl
  | float x => rw [finitePart]; split <;> rfl
  | list items ih =>
    refine eq_of_forall_ge_iff fun bound => ?_
    rw [finitePart_list, depth, depth, itemsDepth_le_iff, itemsDepth_le_iff, List.forall_mem_map]
    exact forall₂_congr fun item hitem => by rw [ih item hitem]
  | object entries ih =>
    refine eq_of_forall_ge_iff fun bound => ?_
    rw [finitePart_object, depth, depth, entriesDepth_le_iff, entriesDepth_le_iff,
      List.forall_mem_map]
    exact forall₂_congr fun entry hentry => by rw [ih entry hentry]

theorem integer_mem_parts_finitePart {v : Value} {n : Int} :
    .integer n ∈ v.finitePart.parts ↔ .integer n ∈ v.parts := by
  have hpart : ∀ w : Value, w.finitePart = .integer n ↔ w = .integer n := by
    intro w
    cases w <;> simp [finitePart]
    split <;> simp
  simp [parts_finitePart, hpart]

theorem isFinite_finitePart (v : Value) : v.finitePart.IsFinite := by
  intro x hx
  rw [parts_finitePart] at hx
  obtain ⟨w, -, hw⟩ := List.mem_map.mp hx
  cases w with
  | float y =>
    rw [finitePart] at hw
    split at hw
    · rename_i hy
      cases hw
      exact hy
    · cases hw
  | _ => simp [finitePart] at hw

theorem finitePart_eq_self {v : Value} (h : v.IsFinite) : v.finitePart = v := by
  induction v with
  | null | boolean | integer | text => rfl
  | float x => rw [finitePart, if_pos (h x (self_mem_parts _))]
  | list items ih =>
    have hitems : items.map finitePart = items.map id := List.map_congr_left fun item hitem =>
      ih item hitem fun x hx => h x (parts_subset_of_mem_list hitem hx)
    rw [finitePart_list, hitems, List.map_id]
  | object entries ih =>
    have hentries : (entries.map fun entry => (entry.1, entry.2.finitePart)) = entries.map id :=
      List.map_congr_left fun entry hentry => by
        rw [ih entry hentry fun x hx => h x (parts_subset_of_mem_object hentry hx)]
        rfl
    rw [finitePart_object, hentries, List.map_id]

/-! ## Distinct keys -/

/-- Whether no object in a value repeats a key. -/
def KeysDistinct (v : Value) : Prop :=
  ∀ entries, .object entries ∈ v.parts → (entries.map Prod.fst).Nodup

instance (v : Value) : Decidable v.KeysDistinct :=
  decidable_of_iff (∀ w ∈ v.parts, ((w.entries?.getD []).map Prod.fst).Nodup) <| by
    constructor
    · exact fun h entries he => h _ he
    · intro h w hw
      cases w with
      | object entries => exact h entries hw
      | _ => exact List.nodup_nil

theorem KeysDistinct.of_mem_list {items : List Value} (h : (Value.list items).KeysDistinct)
    {item : Value} (hitem : item ∈ items) : item.KeysDistinct :=
  fun entries he => h entries (parts_subset_of_mem_list hitem he)

theorem KeysDistinct.of_mem_object {entries : Members} (h : (Value.object entries).KeysDistinct)
    {k : String} {v : Value} (hv : (k, v) ∈ entries) : v.KeysDistinct :=
  fun inner he => h inner (parts_subset_of_mem_object hv he)

theorem keysDistinct_list {items : List Value} :
    (Value.list items).KeysDistinct ↔ ∀ item ∈ items, item.KeysDistinct := by
  refine ⟨fun h item => h.of_mem_list, fun h entries he => ?_⟩
  rw [parts_list, List.mem_cons] at he
  obtain ⟨item, hitem, he⟩ := List.mem_flatMap.mp (he.resolve_left (by simp))
  exact h item hitem entries he

theorem keysDistinct_object {entries : Members} :
    (Value.object entries).KeysDistinct ↔
      (entries.map Prod.fst).Nodup ∧ ∀ entry ∈ entries, entry.2.KeysDistinct := by
  refine ⟨fun h => ⟨h entries (self_mem_parts _), fun entry => h.of_mem_object⟩, ?_⟩
  rintro ⟨hkeys, hvalues⟩ inner he
  rw [parts_object, List.mem_cons] at he
  rcases he with he | he
  · cases he
    exact hkeys
  · obtain ⟨entry, hentry, he⟩ := List.mem_flatMap.mp he
    exact hvalues entry hentry inner he

/-- A value without parts of its own repeats no key. -/
theorem keysDistinct_of_parts {v : Value} (hparts : v.parts = [v])
    (h : ∀ entries, v ≠ .object entries) : v.KeysDistinct := by
  intro entries he
  rw [hparts, List.mem_singleton] at he
  exact absurd he.symm (h entries)

@[simp] theorem keysDistinct_null : Value.null.KeysDistinct := keysDistinct_of_parts rfl (by simp)

@[simp] theorem keysDistinct_boolean (b : Bool) : (Value.boolean b).KeysDistinct :=
  keysDistinct_of_parts rfl (by simp)

@[simp] theorem keysDistinct_integer (n : Int) : (Value.integer n).KeysDistinct :=
  keysDistinct_of_parts rfl (by simp)

@[simp] theorem keysDistinct_float (x : Binary64) : (Value.float x).KeysDistinct :=
  keysDistinct_of_parts rfl (by simp)

@[simp] theorem keysDistinct_text (s : String) : (Value.text s).KeysDistinct :=
  keysDistinct_of_parts rfl (by simp)

/-- Merging the entries leaves no key repeated. -/
theorem keysDistinct_ofEntries {entries : Members} (h : ∀ entry ∈ entries, entry.2.KeysDistinct) :
    (Value.ofEntries entries).KeysDistinct :=
  keysDistinct_object.mpr ⟨(OrderedMap.ofList entries).distinct,
    fun entry he => h entry (OrderedMap.mem_of_mem_ofList he)⟩

theorem KeysDistinct.finitePart {v : Value} (h : v.KeysDistinct) : v.finitePart.KeysDistinct := by
  intro entries hentries
  rw [parts_finitePart] at hentries
  obtain ⟨w, hw, heq⟩ := List.mem_map.mp hentries
  cases w with
  | object original =>
    rw [finitePart_object] at heq
    cases heq
    simpa [Function.comp_def] using h original hw
  | float x => rw [Value.finitePart] at heq; split at heq <;> cases heq
  | _ => cases heq

theorem mergedItems_eq (items : List Value) : mergedItems items = items.map merged := by
  induction items with
  | nil => rfl
  | cons item rest ih => rw [mergedItems, ih, List.map_cons]

theorem mergedEntries_eq (entries : Members) :
    mergedEntries entries = entries.map fun entry => (entry.1, entry.2.merged) := by
  induction entries with
  | nil => rfl
  | cons entry rest ih => rw [mergedEntries, ih, List.map_cons]

theorem merged_eq_self {v : Value} (h : v.KeysDistinct) : v.merged = v := by
  induction v with
  | null | boolean | integer | float | text => rfl
  | list items ih =>
    have hitems : items.map merged = items.map id := List.map_congr_left fun item hitem =>
      ih item hitem fun entries he => h entries (parts_subset_of_mem_list hitem he)
    rw [merged, mergedItems_eq, hitems, List.map_id]
  | object entries ih =>
    have hentries : (entries.map fun entry => (entry.1, entry.2.merged)) = entries.map id :=
      List.map_congr_left fun entry hentry => by
        rw [ih entry hentry fun inner he => h inner (parts_subset_of_mem_object hentry he)]
        rfl
    rw [merged, mergedEntries_eq, hentries, List.map_id, ofEntries,
      OrderedMap.entries_ofList (h entries (self_mem_parts _))]

end FederationGraph.Value
