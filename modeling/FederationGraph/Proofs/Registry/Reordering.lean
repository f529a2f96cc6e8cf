import FederationGraph.Proofs.Parts
import FederationGraph.Proofs.Registry.Alike
import FederationGraph.Proofs.Registry.Merge

/-!
# Registries of reordered fragments

The order of fragments decides the order in which types, fields, keys and
implementations are listed, and nothing more, as long as no name stands for both
an object and an interface type and no field of a type is defined by two
fragments. Without the first condition a type may enlist in one order and not in
another; without the second the definition of a field that counts is the last.
-/
namespace FederationGraph

/-- Whether no name stands for both an object and an interface type. -/
def OneKindEach (fs : List TypeFragment) : Prop :=
  ∀ f ∈ fs, ∀ g ∈ fs, f.name = g.name → f.isInterface = g.isInterface

/-- Whether no field of a type is defined by two fragments. -/
def FieldsApart (fs : List TypeFragment) : Prop :=
  fs.Pairwise fun f g => f.name = g.name → ∀ d ∈ f.fields, ∀ e ∈ g.fields, d.name ≠ e.name

/-- The definitions of a field all stand in one fragment. -/
theorem FieldsApart.get?_fields_eq {name field : String} {fs gs : List TypeFragment}
    (h : FieldsApart fs) (p : fs.Perm gs) :
    (SchemaType.ofFragments name (fragmentsOf name fs)).fields.get? field =
      (SchemaType.ofFragments name (fragmentsOf name gs)).fields.get? field := by
  have hp : (fragmentsOf name fs).Perm (fragmentsOf name gs) := p.filter _
  have hapart : (fragmentsOf name fs).Pairwise fun f g =>
      ∀ d ∈ f.fields, ∀ e ∈ g.fields, d.name ≠ e.name := by
    refine (h.filter _).imp_of_mem ?_
    intro f g hf hg hd
    have hf : f.name = name := by simpa using (List.mem_filter.mp hf).2
    have hg : g.name = name := by simpa using (List.mem_filter.mp hg).2
    exact hd (hf.trans hg.symm)
  have hcommute : (fragmentsOf name fs).Pairwise fun f g =>
      f.fields.filter (fun d => d.name = field) ++ g.fields.filter (fun d => d.name = field) =
        g.fields.filter (fun d => d.name = field) ++ f.fields.filter (fun d => d.name = field) := by
    refine hapart.imp ?_
    intro f g hd
    exact filter_append_comm hd field
  have hfilter := flatMap_eq_of_perm hp hcommute
  simp only [← List.filter_flatMap] at hfilter
  rw [SchemaType.ofFragments, SchemaType.ofFragments, OrderedMap.get?_ofList,
    OrderedMap.get?_ofList, List.filter_map, List.filter_map]
  exact congrArg (fun ds : List FieldDefinition =>
    (ds.map fun d => (d.name, SchemaField.ofDefinition d)).getLast?.map Prod.snd) hfilter

theorem ofFragments_alike {name : String} {fs gs : List TypeFragment} (h : FieldsApart fs)
    (p : fs.Perm gs) :
    (SchemaType.ofFragments name (fragmentsOf name fs)).Alike
      (SchemaType.ofFragments name (fragmentsOf name gs)) := by
  have hp : (fragmentsOf name fs).Perm (fragmentsOf name gs) := p.filter _
  constructor
  · rfl
  · exact fun field => h.get?_fields_eq p
  · exact hp.any_eq
  · exact hp.all_eq
  · exact (((hp.flatMap_right _).filterMap _).filterMap _).flatMap_right _

/-- If every name is of one kind, a type enlists wherever an object fragment names an interface. -/
theorem OneKindEach.enlists_iff {fs : List TypeFragment} (h : OneKindEach fs)
    {interface name : String} :
    Enlists fs interface name ↔
      ∃ f ∈ fs, f.name = name ∧ interface ∈ f.interfaces ∧ f.isInterface = false := by
  constructor
  · rintro ⟨seen, f, hp, hn, hi, hall⟩
    have hf : f ∈ seen ++ [f] := List.mem_append_right _ (List.mem_singleton_self f)
    exact ⟨f, hp.subset hf, hn, hi, hall f hf hn⟩
  · rintro ⟨f, hf, hn, hi, ho⟩
    obtain ⟨seen, rest, rfl⟩ := List.append_of_mem hf
    refine ⟨seen, f, ⟨rest, by simp⟩, hn, hi, ?_⟩
    intro g hg hgn
    have hg : g ∈ seen ++ f :: rest := by
      rcases List.mem_append.mp hg with hg | hg
      · exact List.mem_append_left _ hg
      · exact List.mem_singleton.mp hg ▸ hf
    exact (h g hg f hf (hgn.trans hn.symm)).trans ho

theorem Registry.IsMergeOf.alike {r s : Registry} {fs gs : List TypeFragment}
    (hr : r.IsMergeOf fs) (hs : s.IsMergeOf gs) (p : fs.Perm gs) (kinds : OneKindEach fs)
    (apart : FieldsApart fs) : r.Alike s where
  types name := by
    have hp : (fragmentsOf name fs).Perm (fragmentsOf name gs) := p.filter _
    rw [hr.types, hs.types]
    by_cases hn : fragmentsOf name fs = []
    · rw [if_pos hn, if_pos (hn ▸ hp).nil_eq.symm]
      exact .none
    · rw [if_neg hn, if_neg fun e => hn (e ▸ hp).eq_nil]
      exact .some (ofFragments_alike apart p)
  implementations interface name := by
    have kinds' : OneKindEach gs := fun f hf g hg =>
      kinds f (p.mem_iff.mpr hf) g (p.mem_iff.mpr hg)
    rw [hr.implementations, hs.implementations, kinds.enlists_iff, kinds'.enlists_iff]
    simp only [p.mem_iff]

end FederationGraph
