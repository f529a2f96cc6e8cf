import FederationGraph.Proofs.Registry.Chain

/-!
# Registries alike

Registries that hold the same types up to the order of what they list have the
same chains. A path therefore resolves to the same owners in both, in some order.
-/
namespace FederationGraph

/-- Types that differ at most in the order in which fields, keys, interfaces and directives are
listed. -/
structure SchemaType.Alike (a b : SchemaType) : Prop where
  name : a.name = b.name
  fields : ∀ field, a.fields.get? field = b.fields.get? field
  isInterface : a.isInterface = b.isInterface
  isExtension : a.isExtension = b.isExtension
  keyFields : a.keyFields.Perm b.keyFields

/-- Registries that hold types alike under the same names and list the same implementations. -/
structure Registry.Alike (r s : Registry) : Prop where
  types : ∀ name, (r.types.get? name).Rel SchemaType.Alike (s.types.get? name)
  implementations : ∀ interface name,
    name ∈ r.implementationsOf interface ↔ name ∈ s.implementationsOf interface

theorem SchemaType.Alike.symm {a b : SchemaType} (h : a.Alike b) : b.Alike a :=
  ⟨h.name.symm, fun field => (h.fields field).symm, h.isInterface.symm, h.isExtension.symm,
    h.keyFields.symm⟩

namespace Registry

variable {r s : Registry}

theorem Alike.cases (h : r.Alike s) (name : String) :
    (r.types.get? name = none ∧ s.types.get? name = none) ∨
      ∃ a b, r.types.get? name = some a ∧ s.types.get? name = some b ∧ a.Alike b := by
  have ht := h.types name
  cases hr : r.types.get? name with
  | none =>
    rw [hr] at ht
    cases hs : s.types.get? name with
    | none => exact .inl ⟨rfl, rfl⟩
    | some b => rw [hs] at ht; cases ht
  | some a =>
    rw [hr] at ht
    cases hs : s.types.get? name with
    | none => rw [hs] at ht; cases ht
    | some b =>
      rw [hs] at ht
      cases ht with
      | some hab => exact .inr ⟨a, b, rfl, rfl, hab⟩

theorem Alike.contains_eq (h : r.Alike s) (name : String) : r.contains name = s.contains name := by
  rw [contains, contains, OrderedMap.contains, OrderedMap.contains]
  rcases h.cases name with ⟨hr, hs⟩ | ⟨a, b, hr, hs, -⟩ <;> rw [hr, hs]
  rfl

theorem Alike.hasField_eq (h : r.Alike s) (name field : String) :
    r.hasField name field = s.hasField name field := by
  rw [hasField, hasField]
  rcases h.cases name with ⟨hr, hs⟩ | ⟨a, b, hr, hs, hab⟩ <;> rw [hr, hs]
  rw [Option.any_some, Option.any_some, OrderedMap.contains, OrderedMap.contains, hab.fields]

theorem Alike.fieldType?_eq (h : r.Alike s) (name field : String) :
    r.fieldType? name field = s.fieldType? name field := by
  rw [fieldType?, fieldType?]
  rcases h.cases name with ⟨hr, hs⟩ | ⟨a, b, hr, hs, hab⟩ <;> rw [hr, hs]
  rw [Option.bind_some, Option.bind_some, hab.fields]

theorem Alike.isKeyField_eq (h : r.Alike s) (name field : String) :
    r.isKeyField name field = s.isKeyField name field := by
  rw [isKeyField, isKeyField]
  rcases h.cases name with ⟨hr, hs⟩ | ⟨a, b, hr, hs, hab⟩ <;> rw [hr, hs]
  rw [Option.any_some, Option.any_some, Bool.eq_iff_iff, List.contains_iff_mem,
    List.contains_iff_mem, hab.keyFields.mem_iff]

theorem Alike.owns (h : r.Alike s) {name field owner : String} (ho : r.Owns name field owner) :
    s.Owns name field owner := by
  have hknown : ∀ {a}, r.types.get? name = some a →
      ∃ b, s.types.get? name = some b ∧ a.isInterface = b.isInterface := by
    intro a ha
    rcases h.cases name with ⟨hr, -⟩ | ⟨a', b, hr, hs, hab⟩
    · rw [hr] at ha; cases ha
    · obtain rfl : a' = a := Option.some.inj (hr.symm.trans ha)
      exact ⟨b, hs, hab.isInterface⟩
  cases ho with
  | itself known object defines =>
    obtain ⟨b, hb, hi⟩ := hknown known
    exact .itself hb (hi ▸ object) (h.hasField_eq _ _ ▸ defines)
  | implementation known interface listed defines =>
    obtain ⟨b, hb, hi⟩ := hknown known
    exact .implementation hb (hi ▸ interface) ((h.implementations _ _).mp listed)
      (h.hasField_eq _ _ ▸ defines)
  | interface known interface undefined defines =>
    obtain ⟨b, hb, hi⟩ := hknown known
    refine .interface hb (hi ▸ interface) (fun o ho => ?_) (h.hasField_eq _ _ ▸ defines)
    rw [← h.hasField_eq]
    exact undefined o ((h.implementations _ _).mpr ho)

theorem Alike.chain (h : r.Alike s) {start last : String} {segments : List String}
    (hc : r.Chain start segments last) : s.Chain start segments last := by
  induction hc with
  | last owns => exact .last (h.owns owns)
  | link owns leads chain ih => exact .link (h.owns owns) (h.fieldType?_eq _ _ ▸ leads) ih

theorem Alike.symm (h : r.Alike s) : s.Alike r where
  types name := by
    rcases h.cases name with ⟨hr, hs⟩ | ⟨a, b, hr, hs, hab⟩ <;> rw [hr, hs]
    · exact .none
    · exact .some hab.symm
  implementations interface name := (h.implementations interface name).symm

/-- Every path resolves to the same owners, in some order. -/
theorem Alike.walk_perm (h : r.Alike s) (cursors segments : List String) :
    (r.walk cursors segments).Perm (s.walk cursors segments) := by
  rw [List.perm_ext_iff_of_nodup (nodup_walk r cursors segments) (nodup_walk s cursors segments)]
  intro x
  rw [mem_walk, mem_walk, h.fieldType?_eq]
  refine and_congr_left fun _ => ?_
  constructor
  · rintro ⟨cursor, hc, hx⟩
    exact ⟨cursor, hc, h.chain hx⟩
  · rintro ⟨cursor, hc, hx⟩
    exact ⟨cursor, hc, h.symm.chain hx⟩

end Registry

end FederationGraph
