import FederationGraph.Proofs.Directive.Spelling
import FederationGraph.Proofs.OrderedMap
import FederationGraph.Registry.Merge

/-!
# Registries of documents in two spellings

Documents that differ in the spelling of federation directives alone are merged
into registries that differ in the directives they keep and in nothing that
counts: the same types, fields, keys and implementations in the same order, and
directives of the same effect on each field. A step of the merge keeps that, so
the merge of all fragments does.
-/
namespace FederationGraph

/-- Definitions of a field that differ in the spelling of directives at most. -/
structure FieldDefinition.Respelled (d e : FieldDefinition) : Prop where
  name : d.name = e.name
  type : d.type = e.type
  directives : List.Forall₂ Directive.Respelled d.directives e.directives

structure TypeFragment.Respelled (f g : TypeFragment) : Prop where
  name : f.name = g.name
  isInterface : f.isInterface = g.isInterface
  isExtension : f.isExtension = g.isExtension
  interfaces : f.interfaces = g.interfaces
  directives : List.Forall₂ Directive.Respelled f.directives g.directives
  fields : List.Forall₂ FieldDefinition.Respelled f.fields g.fields

/-- Definitions that differ in the spelling of directives at most. -/
inductive Definition.Respelled : Definition → Definition → Prop
  | fragment {f g : TypeFragment} (h : f.Respelled g) : Respelled (.fragment f) (.fragment g)
  | other : Respelled .other .other

/-- Documents that differ in the spelling of directives at most, wherever they stand. -/
def Document.Respelled (d e : Document) : Prop := List.Forall₂ Definition.Respelled d e

/-- Fields that differ in directives of the same effect at most. -/
structure SchemaField.SameEffect (a b : SchemaField) : Prop where
  name : a.name = b.name
  namedType : a.namedType = b.namedType
  federation : FederationDirective.SameEffect a.federation b.federation

structure SchemaType.SameEffect (a b : SchemaType) : Prop where
  name : a.name = b.name
  isInterface : a.isInterface = b.isInterface
  isExtension : a.isExtension = b.isExtension
  keyFields : a.keyFields = b.keyFields
  fields : OrderedMap.Rel SchemaField.SameEffect a.fields b.fields

/-- Registries that differ in directives of the same effect at most. -/
structure Registry.SameEffect (r s : Registry) : Prop where
  types : OrderedMap.Rel SchemaType.SameEffect r.types s.types
  implementations : r.implementations = s.implementations

theorem FieldDefinition.Respelled.sameEffect {d e : FieldDefinition} (h : d.Respelled e) :
    (SchemaField.ofDefinition d).SameEffect (SchemaField.ofDefinition e) where
  name := h.name
  namedType := congrArg TypeReference.namedType h.type
  federation := Directive.sameEffect_of_respelled h.directives

theorem Document.Respelled.fragments {d e : Document} (h : d.Respelled e) :
    List.Forall₂ TypeFragment.Respelled d.fragments e.fragments := by
  refine List.rel_filterMap ?_ h
  intro x y hxy
  cases hxy with
  | fragment hfg => exact .some hfg
  | other => exact .none

namespace SchemaType

theorem SameEffect.unseen (name : String) (isExtension : Bool) :
    (unseen name isExtension).SameEffect (unseen name isExtension) :=
  ⟨rfl, rfl, rfl, rfl, .empty⟩

theorem SameEffect.absorb {a b : SchemaType} (h : a.SameEffect b) {f g : TypeFragment}
    (hfg : f.Respelled g) : (a.absorb f).SameEffect (b.absorb g) where
  name := h.name
  isInterface := by rw [SchemaType.absorb, SchemaType.absorb, h.isInterface, hfg.isInterface]
  isExtension := by rw [SchemaType.absorb, SchemaType.absorb, h.isExtension, hfg.isExtension]
  keyFields := by
    rw [SchemaType.absorb, SchemaType.absorb, h.keyFields,
      (Directive.sameEffect_of_respelled hfg.directives).keyPaths]
  fields := by
    refine List.rel_foldl ?_ h.fields hfg.fields
    intro m n hmn d e hde
    show OrderedMap.Rel _ (m.insert d.name _) (n.insert e.name _)
    rw [hde.name]
    exact hmn.insert e.name hde.sameEffect

end SchemaType

namespace Registry

variable {r s : Registry} {f g : TypeFragment}

theorem SameEffect.merged (h : r.SameEffect s) (hfg : f.Respelled g) :
    (r.merged f).SameEffect (s.merged g) := by
  rw [Registry.merged, Registry.merged, hfg.name, hfg.isExtension]
  rcases h.types.get?_cases g.name with ⟨hr, hs⟩ | ⟨a, b, hr, hs, hab⟩ <;> rw [hr, hs]
  · exact (SchemaType.SameEffect.unseen _ _).absorb hfg
  · exact hab.absorb hfg

theorem enlist_eq {a b : SchemaType} (h : a.SameEffect b) : enlist a = enlist b := by
  funext names
  rw [enlist, enlist, h.isInterface, h.name]

/-- A further fragment, spelled one way or the other, keeps registries of the same effect. -/
theorem SameEffect.add (h : r.SameEffect s) (hfg : f.Respelled g) :
    (r.add f).SameEffect (s.add g) where
  types := by
    rw [Registry.add, Registry.add, hfg.name]
    exact h.types.insert g.name (h.merged hfg)
  implementations := by
    rw [Registry.add, Registry.add, enlist_eq (h.merged hfg), hfg.interfaces, h.implementations]

theorem SameEffect.foldl_add {fs gs : List TypeFragment} (h : r.SameEffect s)
    (hfs : List.Forall₂ TypeFragment.Respelled fs gs) :
    (fs.foldl Registry.add r).SameEffect (gs.foldl Registry.add s) := by
  refine List.rel_foldl ?_ h hfs
  intro r s h f g hfg
  exact h.add hfg

theorem SameEffect.settle (h : r.SameEffect s) : r.settle.SameEffect s.settle where
  types := h.types
  implementations := by
    have hbefore : r.registeredBefore = s.registeredBefore := by
      funext a b
      rw [registeredBefore, registeredBefore, h.types.keys_eq]
    rw [Registry.settle, Registry.settle, h.implementations, hbefore]

theorem sameEffect_ofDocument {d e : Document} (h : d.Respelled e) :
    (ofDocument d).SameEffect (ofDocument e) :=
  have hempty : empty.SameEffect empty := ⟨.empty, rfl⟩
  (hempty.foldl_add h.fragments).settle

end Registry

end FederationGraph
