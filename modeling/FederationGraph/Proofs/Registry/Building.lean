import FederationGraph.Proofs.Registry.Implementations

/-!
# Building a registry piece by piece

Settling in between only moves names within the lists of implementations. What
is added next finds the same types and the same names in each list, so that two
registries of which one was settled on the way stay the same but for the order
of those lists. Settling at last sorts them by position, and since all names in
them are registered, the order is then that of the types.
-/
namespace FederationGraph

namespace Registry

/-- The documents a step adds, as one. -/
def Step.document : Step → Document
  | .addDocument document => document
  | .settle => []

/-- Registries that are the same but for the order of names within lists of implementations. -/
structure SameButOrder (r s : Registry) : Prop where
  types : r.types = s.types
  implementations : r.implementations.Rel List.Perm s.implementations

variable {r s : Registry}

theorem SameButOrder.refl (r : Registry) : r.SameButOrder r :=
  ⟨rfl, .refl List.Perm.refl _⟩

/-! ## Adding -/

theorem enlist_perm (type : SchemaType) {names others : Option (List String)}
    (h : (names.getD []).Perm (others.getD [])) : (enlist type names).Perm (enlist type others) := by
  have hmem := h.mem_iff (a := type.name)
  unfold enlist appendNew
  by_cases hi : type.isInterface = true
  · simpa [hi] using h
  · by_cases hn : type.name ∈ names.getD []
    · simpa [hi, hn, hmem.mp hn] using h
    · simpa [hi, hn, mt hmem.mpr hn] using h.append_right [type.name]

theorem rel_foldl_enlist (type : SchemaType) (interfaces : List String)
    {index other : OrderedMap (List String)} (h : index.Rel List.Perm other) :
    (interfaces.foldl (fun index i => index.alter i (enlist type)) index).Rel List.Perm
      (interfaces.foldl (fun index i => index.alter i (enlist type)) other) := by
  induction interfaces generalizing index other with
  | nil => exact h
  | cons i rest ih =>
    apply ih
    apply h.insert i
    apply enlist_perm
    rcases h.get?_cases i with ⟨hx, hy⟩ | ⟨xs, ys, hx, hy, hperm⟩
    · rw [hx, hy]
    · rw [hx, hy]
      exact hperm

theorem SameButOrder.add (h : r.SameButOrder s) (f : TypeFragment) :
    (r.add f).SameButOrder (s.add f) := by
  have hmerged : r.merged f = s.merged f := by rw [merged, merged, h.types]
  constructor
  · rw [Registry.add, Registry.add, h.types, hmerged]
  · have hrel := rel_foldl_enlist (r.merged f) f.interfaces h.implementations
    unfold Registry.add
    rwa [← hmerged]

theorem SameButOrder.addDocument (h : r.SameButOrder s) (document : Document) :
    (r.addDocument document).SameButOrder (s.addDocument document) := by
  unfold Registry.addDocument
  induction document.fragments generalizing r s with
  | nil => exact h
  | cons f rest ih => exact ih (h.add f)

theorem addDocument_append (r : Registry) (d e : Document) :
    r.addDocument (d ++ e) = (r.addDocument d).addDocument e := by
  unfold addDocument Document.fragments
  rw [List.filterMap_append, List.foldl_append]

/-! ## Settling -/

theorem SameButOrder.settle (h : r.SameButOrder s) : r.settle.SameButOrder s := by
  refine ⟨h.types, ?_⟩
  have hrel := h.implementations
  unfold OrderedMap.Rel at hrel ⊢
  unfold Registry.settle OrderedMap.map
  rw [List.forall₂_map_left_iff]
  exact hrel.imp fun a b hab => ⟨hab.1, (List.mergeSort_perm _ _).trans hab.2⟩

/-- Of lists with the same names each is settled in the same way, as all names have a position. -/
theorem SameButOrder.settle_eq (h : r.SameButOrder s) (hr : r.Indexed) : r.settle = s.settle := by
  have hbefore : r.registeredBefore = s.registeredBefore := by
    unfold registeredBefore
    rw [h.types]
  have hsorted : ∀ interface names others, r.implementations.get? interface = some names →
      names.Perm others →
      names.mergeSort r.registeredBefore = others.mergeSort s.registeredBefore := by
    intro interface names others hnames hperm
    have hlisted : r.implementationsOf interface = names := by rw [implementationsOf, hnames]; rfl
    have hsettled : (names.mergeSort r.registeredBefore).Perm
        (others.mergeSort r.registeredBefore) :=
      ((List.mergeSort_perm _ _).trans hperm).trans (List.mergeSort_perm _ _).symm
    rw [← hbefore]
    -- both are sorted by an order that tells the names of registered types apart
    refine hsettled.eq_of_pairwise (fun a b ha _ hab hba => ?_)
      (r.pairwise_mergeSort_registeredBefore _) (r.pairwise_mergeSort_registeredBefore _)
    have hregistered := hr.registered (hlisted ▸ List.mem_mergeSort.mp ha)
    exact eq_of_registeredBefore hregistered hab hba
  unfold Registry.settle
  rw [h.types, h.implementations.map_eq hsorted]

/-! ## Runs -/

/-- Settling on the way does not show. -/
theorem SameButOrder.foldl_take (h : r.SameButOrder s) (steps : List Step) :
    (steps.foldl Registry.take r).SameButOrder
      (s.addDocument (steps.flatMap Step.document)) := by
  induction steps generalizing r s with
  | nil => exact h
  | cons step rest ih =>
    rw [List.foldl_cons, List.flatMap_cons, addDocument_append]
    cases step with
    | addDocument document => exact ih (h.addDocument document)
    | settle => exact ih h.settle

/-- However documents are added and the registry is settled in between, it settles to that of one
document with all definitions in order, and settling it once more changes nothing. -/
theorem settle_foldl_take (steps : List Step) :
    let r := steps.foldl Registry.take empty
    r.settle = ofDocument (steps.flatMap Step.document) ∧ r.settle.settle = r.settle := by
  intro r
  have hr : r.Indexed := indexed_empty.foldl_take steps
  have hsame : r.SameButOrder (empty.addDocument (steps.flatMap Step.document)) :=
    (SameButOrder.refl empty).foldl_take steps
  exact ⟨hsame.settle_eq hr, (SameButOrder.refl r).settle.settle_eq hr.settle⟩

/-- A type that implements an interface late goes ahead of one that was registered after it. -/
example :
    let links (name : String) (interfaces : List String) : Step :=
      .addDocument [.fragment ⟨name, false, false, interfaces, [], []⟩]
    let r := [links "A" [], links "B" ["Node"], .settle, links "A" ["Node"]].foldl take empty
    r.implementationsOf "Node" = ["B", "A"] ∧ r.settle.implementationsOf "Node" = ["A", "B"] := by
  cbv

end Registry

end FederationGraph
