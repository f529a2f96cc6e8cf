import FederationGraph.Proofs.OrderedMap
import FederationGraph.Proofs.Registry.Merge

/-!
# Implementations and interface lists

A registry says twice who implements what: under each interface the names of the
implementing types, and with each type the names of its interfaces. Documents may
be added and the registry settled in any order; the two never come apart. A type
that turned into an interface stays where it was listed, which is why only the
types that are no interfaces have to be listed under all they name.
-/
namespace FederationGraph.Registry

/-- One call on a registry under construction. -/
inductive Step where
  | addDocument (document : Document)
  | settle

/-- The registry after a step. -/
def take (r : Registry) : Step → Registry
  | .addDocument document => r.addDocument document
  | .settle => r.settle

/-- The lists under the interfaces and those with the types agree. -/
structure Indexed (r : Registry) : Prop where
  named : ∀ name type, r.types.get? name = some type → type.name = name
  listed : ∀ interface name, name ∈ r.implementationsOf interface →
    ∃ type, r.types.get? name = some type ∧ interface ∈ type.interfaces
  complete : ∀ name type interface, r.types.get? name = some type → type.isInterface = false →
    interface ∈ type.interfaces → name ∈ r.implementationsOf interface
  keyed : ∀ name type interface, r.types.get? name = some type → interface ∈ type.interfaces →
    interface ∈ r.implementations.keys
  nodup_implementations : ∀ interface, (r.implementationsOf interface).Nodup
  nodup_interfaces : ∀ name type, r.types.get? name = some type → type.interfaces.Nodup

theorem indexed_empty : empty.Indexed := by
  constructor <;> simp [empty, implementationsOf]

/-! ## A further fragment -/

theorem nodup_enlist {type : SchemaType} {names : Option (List String)}
    (h : (names.getD []).Nodup) : (enlist type names).Nodup := by
  rw [enlist]
  split
  · exact h
  · exact nodup_appendNew h

theorem nodup_foldl_enlist (type : SchemaType) (interfaces : List String)
    (index : OrderedMap (List String)) (h : ∀ i, ((index.get? i).getD []).Nodup)
    (interface : String) :
    (((interfaces.foldl (fun index i => index.alter i (enlist type)) index).get?
      interface).getD []).Nodup := by
  induction interfaces generalizing index with
  | nil => exact h interface
  | cons i rest ih =>
    refine ih _ fun other => ?_
    rw [OrderedMap.get?_alter]
    split
    · exact nodup_enlist (h i)
    · exact h other

theorem keys_foldl_enlist (type : SchemaType) (interfaces : List String)
    (index : OrderedMap (List String)) :
    (interfaces.foldl (fun index i => index.alter i (enlist type)) index).keys =
      appendAllNew index.keys interfaces := by
  rw [appendAllNew]
  refine (List.foldl_hom OrderedMap.keys fun index i => ?_).symm
  exact (index.keys_insert_eq_appendNew i _).symm

theorem mem_implementationsOf_add (r : Registry) (f : TypeFragment) (interface name : String) :
    name ∈ (r.add f).implementationsOf interface ↔ name ∈ r.implementationsOf interface ∨
      (interface ∈ f.interfaces ∧ (r.merged f).isInterface = false ∧
        name = (r.merged f).name) :=
  mem_foldl_enlist (r.merged f) f.interfaces r.implementations interface name

/-- A type keeps the interfaces it has when a fragment comes in. -/
theorem mem_interfaces_merged {r : Registry} {f : TypeFragment} {type : SchemaType}
    {interface : String} (ht : r.types.get? f.name = some type)
    (hi : interface ∈ type.interfaces) : interface ∈ (r.merged f).interfaces := by
  rw [merged, ht]
  exact mem_appendAllNew.mpr (.inl hi)

/-- What the type of a fragment names was known of it already, or the fragment names it. -/
theorem interfaces_merged_cases {r : Registry} {f : TypeFragment} {interface : String}
    (hi : interface ∈ (r.merged f).interfaces) :
    interface ∈ f.interfaces ∨
      ∃ type, r.types.get? f.name = some type ∧ interface ∈ type.interfaces := by
  rw [merged] at hi
  rcases mem_appendAllNew.mp hi with hold | hnew
  · cases ht : r.types.get? f.name with
    | none =>
      rw [ht] at hold
      cases hold
    | some type =>
      rw [ht] at hold
      exact .inr ⟨type, rfl, hold⟩
  · exact .inl hnew

/-- An object type was no interface before. -/
theorem isInterface_eq_false_of_merged {r : Registry} {f : TypeFragment} {type : SchemaType}
    (ht : r.types.get? f.name = some type) (h : (r.merged f).isInterface = false) :
    type.isInterface = false := by
  rw [merged, ht] at h
  exact (Bool.or_eq_false_iff.mp h).1

theorem Indexed.name_merged {r : Registry} (h : r.Indexed) (f : TypeFragment) :
    (r.merged f).name = f.name := by
  rw [merged]
  cases ht : r.types.get? f.name with
  | none => rfl
  | some type => exact h.named f.name type ht

theorem get?_types_add (r : Registry) (f : TypeFragment) (name : String) :
    (r.add f).types.get? name = if name = f.name then some (r.merged f) else r.types.get? name :=
  r.types.get?_insert f.name name _

/-- A type behind a fragment is the one it was merged into, or it was there before. -/
theorem types_add_cases {r : Registry} {f : TypeFragment} {name : String} {type : SchemaType}
    (h : (r.add f).types.get? name = some type) :
    (name = f.name ∧ type = r.merged f) ∨ r.types.get? name = some type := by
  rw [get?_types_add] at h
  split at h
  · cases h
    exact .inl ⟨‹_›, rfl⟩
  · exact .inr h

theorem keys_implementations_add (r : Registry) (f : TypeFragment) :
    (r.add f).implementations.keys = appendAllNew r.implementations.keys f.interfaces :=
  keys_foldl_enlist (r.merged f) f.interfaces r.implementations

theorem Indexed.nodup_interfaces_merged {r : Registry} (h : r.Indexed) (f : TypeFragment) :
    (r.merged f).interfaces.Nodup := by
  rw [merged]
  refine nodup_appendAllNew ?_
  cases hold : r.types.get? f.name with
  | none => exact List.nodup_nil
  | some old => exact h.nodup_interfaces f.name old hold

theorem Indexed.add {r : Registry} (h : r.Indexed) (f : TypeFragment) : (r.add f).Indexed := by
  have hname := h.name_merged f
  constructor
  case named =>
    intro name type ht
    obtain ⟨rfl, rfl⟩ | ht := types_add_cases ht
    · exact hname
    · exact h.named name type ht
  case listed =>
    intro interface name hm
    rw [get?_types_add]
    rcases (r.mem_implementationsOf_add f interface name).mp hm with hold | ⟨hi, -, rfl⟩
    · obtain ⟨type, ht, hti⟩ := h.listed interface name hold
      split
      · rename_i hn
        subst hn
        exact ⟨_, rfl, mem_interfaces_merged ht hti⟩
      · exact ⟨type, ht, hti⟩
    · rw [if_pos hname]
      exact ⟨_, rfl, mem_appendAllNew.mpr (.inr hi)⟩
  case complete =>
    intro name type interface ht hobject hi
    rw [mem_implementationsOf_add]
    obtain ⟨rfl, rfl⟩ | ht := types_add_cases ht
    · rcases interfaces_merged_cases hi with hnew | ⟨old, hold, hoi⟩
      · exact .inr ⟨hnew, hobject, hname.symm⟩
      · -- a type that is no interface now never was one, so it was listed when it named the others
        have hearlier := isInterface_eq_false_of_merged hold hobject
        exact .inl (h.complete f.name old interface hold hearlier hoi)
    · exact .inl (h.complete name type interface ht hobject hi)
  case keyed =>
    intro name type interface ht hi
    rw [keys_implementations_add]
    refine mem_appendAllNew.mpr ?_
    obtain ⟨rfl, rfl⟩ | ht := types_add_cases ht
    · rcases interfaces_merged_cases hi with hnew | ⟨old, hold, hoi⟩
      · exact .inr hnew
      · exact .inl (h.keyed f.name old interface hold hoi)
    · exact .inl (h.keyed name type interface ht hi)
  case nodup_implementations =>
    exact nodup_foldl_enlist (r.merged f) f.interfaces r.implementations h.nodup_implementations
  case nodup_interfaces =>
    intro name type ht
    obtain ⟨-, rfl⟩ | ht := types_add_cases ht
    · exact h.nodup_interfaces_merged f
    · exact h.nodup_interfaces name type ht

theorem Indexed.addDocument {r : Registry} (h : r.Indexed) (document : Document) :
    (r.addDocument document).Indexed := by
  rw [Registry.addDocument]
  induction document.fragments generalizing r with
  | nil => exact h
  | cons f rest ih => exact ih (h.add f)

/-! ## Settling -/

theorem implementationsOf_settle (r : Registry) (interface : String) :
    r.settle.implementationsOf interface =
      (r.implementationsOf interface).mergeSort r.registeredBefore := by
  rw [implementationsOf, settle, OrderedMap.get?_map, implementationsOf]
  cases r.implementations.get? interface with
  | none => exact List.mergeSort_nil.symm
  | some names => rfl

theorem perm_implementationsOf_settle (r : Registry) (interface : String) :
    (r.settle.implementationsOf interface).Perm (r.implementationsOf interface) := by
  rw [implementationsOf_settle]
  exact List.mergeSort_perm _ _

theorem keys_implementations_settle (r : Registry) :
    r.settle.implementations.keys = r.implementations.keys := by
  simp [settle, OrderedMap.map, OrderedMap.keys, Function.comp_def]

theorem Indexed.settle {r : Registry} (h : r.Indexed) : r.settle.Indexed where
  named := h.named
  listed interface name hm :=
    h.listed interface name ((r.perm_implementationsOf_settle interface).mem_iff.mp hm)
  complete name type interface ht hobject hi :=
    (r.perm_implementationsOf_settle interface).mem_iff.mpr
      (h.complete name type interface ht hobject hi)
  keyed name type interface ht hi := by
    rw [keys_implementations_settle]
    exact h.keyed name type interface ht hi
  nodup_implementations interface :=
    (r.perm_implementationsOf_settle interface).nodup_iff.mpr (h.nodup_implementations interface)
  nodup_interfaces := h.nodup_interfaces

theorem pairwise_registeredBefore (r : Registry) :
    r.types.keys.Pairwise fun a b => r.registeredBefore a b = true := by
  have hkeys : r.types.keys.Nodup := r.types.distinct
  rw [List.pairwise_iff_getElem]
  intro i j hi hj hij
  rw [registeredBefore, hkeys.idxOf_getElem i hi, hkeys.idxOf_getElem j hj]
  exact decide_eq_true (Nat.le_of_lt hij)

theorem pairwise_mergeSort_registeredBefore (r : Registry) (names : List String) :
    (names.mergeSort r.registeredBefore).Pairwise fun a b => r.registeredBefore a b = true := by
  refine List.pairwise_mergeSort ?_ ?_ _
  · intro a b c
    simp only [registeredBefore, decide_eq_true_eq]
    exact Nat.le_trans
  · intro a b
    simp only [registeredBefore, Bool.or_eq_true, decide_eq_true_eq]
    exact Nat.le_total _ _

/-- Two types are not registered in the same place. -/
theorem eq_of_registeredBefore {r : Registry} {a b : String} (ha : a ∈ r.types.keys)
    (hab : r.registeredBefore a b = true) (hba : r.registeredBefore b a = true) : a = b := by
  simp only [registeredBefore, decide_eq_true_eq] at hab hba
  exact (List.idxOf_inj ha).mp (Nat.le_antisymm hab hba)

theorem Indexed.registered {r : Registry} (h : r.Indexed) {interface name : String}
    (hm : name ∈ r.implementationsOf interface) : name ∈ r.types.keys := by
  obtain ⟨type, ht, -⟩ := h.listed interface name hm
  rw [OrderedMap.mem_keys, ht]
  rfl

/-- A settled list of implementations runs along the registered types. -/
theorem Indexed.sublist_settle {r : Registry} (h : r.Indexed) (interface : String) :
    (r.settle.implementationsOf interface).Sublist r.types.keys := by
  have hkeys : r.types.keys.Nodup := r.types.distinct
  -- the registered types that are listed, in order of registration
  let along := r.types.keys.filter (· ∈ r.implementationsOf interface)
  suffices r.settle.implementationsOf interface = along from this ▸ List.filter_sublist
  have hperm : (r.settle.implementationsOf interface).Perm along := by
    refine (r.perm_implementationsOf_settle interface).trans ?_
    refine (List.perm_ext_iff_of_nodup (h.nodup_implementations interface)
      (hkeys.filter _)).mpr fun name => ?_
    rw [List.mem_filter, decide_eq_true_eq]
    exact ⟨fun hm => ⟨h.registered hm, hm⟩, And.right⟩
  have hsorted : (r.settle.implementationsOf interface).Pairwise
      (fun a b => r.registeredBefore a b = true) := by
    rw [implementationsOf_settle]
    exact r.pairwise_mergeSort_registeredBefore _
  have halong : along.Pairwise (fun a b => r.registeredBefore a b = true) :=
    r.pairwise_registeredBefore.sublist List.filter_sublist
  refine hperm.eq_of_pairwise (fun a b ha _ hab hba => ?_) hsorted halong
  exact eq_of_registeredBefore (List.mem_of_mem_filter (hperm.mem_iff.mp ha)) hab hba

/-! ## Runs -/

theorem Indexed.take {r : Registry} (h : r.Indexed) (step : Step) : (r.take step).Indexed := by
  cases step with
  | addDocument document => exact h.addDocument document
  | settle => exact h.settle

theorem Indexed.foldl_take {r : Registry} (h : r.Indexed) (steps : List Step) :
    (steps.foldl Registry.take r).Indexed := by
  induction steps generalizing r with
  | nil => exact h
  | cons step rest ih => exact ih (h.take step)

/-- Whatever was added and settled so far, the two records agree, and settling puts the
implementations in the order in which the types were registered. -/
theorem indexed_foldl_steps (steps : List Step) :
    let r := steps.foldl Registry.take empty
    r.Indexed ∧ ∀ interface, (r.settle.implementationsOf interface).Sublist r.types.keys :=
  have h := indexed_empty.foldl_take steps
  ⟨h, h.sublist_settle⟩

end FederationGraph.Registry
