import FederationGraph.Dependency.Query
import FederationGraph.Proofs.Dependency.Leaf
import FederationGraph.Proofs.Dependency.Reordering

/-!
# Analyses of reordered documents

The order in which a document gives its definitions shows in the order of types,
fields, keys and implementations. It decides neither which dependencies an
analysis holds nor which of them answer a query, as long as every name stands
for one kind of type and every field of a type is defined in one place.
-/
namespace FederationGraph

theorem Registry.ofDocument_alike {d e : Document} (p : d.Perm e)
    (kinds : OneKindEach d.fragments) (apart : FieldsApart d.fragments) :
    (Registry.ofDocument d).Alike (Registry.ofDocument e) :=
  (isMergeOf_ofDocument d).alike (isMergeOf_ofDocument e) (p.filterMap _) kinds apart

theorem Registry.Alike.keys_perm {r s : Registry} (h : r.Alike s) :
    r.types.keys.Perm s.types.keys := by
  refine (List.perm_ext_iff_of_nodup r.types.distinct s.types.distinct).mpr fun name => ?_
  have hn := h.contains_eq name
  rw [contains, contains, OrderedMap.contains, OrderedMap.contains] at hn
  exact OrderedMap.mem_keys.trans (hn ▸ OrderedMap.mem_keys.symm)

namespace Analysis

/-- A query selects by what a dependency holds, and the reduction compares within an identity. -/
theorem query_perm {a b : Analysis} (hr : a.registry.Alike b.registry)
    (hd : SameByIdentity a.dependencies b.dependencies) (q : Query) :
    (∃ unknown, a.query q = .error unknown ∧ b.query q = .error unknown) ∨
      ∃ ds es, a.query q = .ok ds ∧ b.query q = .ok es ∧ ds.Perm es := by
  rcases hr.cases q.typeName with ⟨ha, hb⟩ | ⟨s, t, ha, hb, -⟩
  · refine .inl ⟨⟨q.typeName⟩, ?_, ?_⟩
    · rw [query, type, ha]
      rfl
    · rw [query, type, hb]
      rfl
  · refine .inr ⟨Dependency.reduce (q.select a.dependencies),
      Dependency.reduce (q.select b.dependencies), ?_, ?_, ?_⟩
    · rw [query, type, ha]
      rfl
    · rw [query, type, hb]
      rfl
    · exact Dependency.reduce_perm (hd.filter q.selects)

/-- Reordering the definitions of a document changes neither the names its analysis knows nor the
dependencies it holds, and every query is answered with the same dependencies or refused alike. -/
theorem ofDocument_perm {d e : Document} (p : d.Perm e) (kinds : OneKindEach d.fragments)
    (apart : FieldsApart d.fragments) (subgraph identifier other : String) (now later : Instant) :
    let a := ofDocument d identifier subgraph now
    let b := ofDocument e other subgraph later
    a.registry.types.keys.Perm b.registry.types.keys ∧
      a.dependencies.Perm b.dependencies ∧
        ∀ q : Query, (∃ unknown, a.query q = .error unknown ∧ b.query q = .error unknown) ∨
          ∃ ds es, a.query q = .ok ds ∧ b.query q = .ok es ∧ ds.Perm es := by
  intro a b
  have hr : a.registry.Alike b.registry := Registry.ofDocument_alike p kinds apart
  have hd : SameByIdentity a.dependencies b.dependencies :=
    hr.dependencies (Registry.isMergeOf_ofDocument d).keyed (Registry.isMergeOf_ofDocument e).keyed
      subgraph
  exact ⟨hr.keys_perm, hd.perm, query_perm hr hd⟩

/-- A type extended ahead of its definition and implementing an interface that comes after it. -/
theorem ofDocument_perm_reversed :
    let key : Directive := ⟨"key", .ofList [("fields", .text "id")]⟩
    let requires : Directive := ⟨"requires", .ofList [("fields", .text "friend { id }")]⟩
    let d : Document := [
      .fragment ⟨"User", false, true, [], [key], [⟨"email", .named "String", [requires]⟩]⟩,
      .fragment ⟨"User", false, false, ["Node"], [],
        [⟨"id", .named "ID", []⟩, ⟨"friend", .named "Node", []⟩]⟩,
      .fragment ⟨"Node", true, false, [], [], [⟨"id", .named "ID", []⟩]⟩]
    let a := ofDocument d "" "users" default
    let b := ofDocument d.reverse "" "users" default
    OneKindEach d.fragments ∧ FieldsApart d.fragments ∧ a.dependencies ≠ b.dependencies ∧
      a.dependencies.Perm b.dependencies := by
  intro key requires d a b
  have kinds : OneKindEach d.fragments := by
    simp [OneKindEach, d, Document.fragments, Definition.fragment?]
  have apart : FieldsApart d.fragments := by
    simp [FieldsApart, d, Document.fragments, Definition.fragment?]
  have differ : a.dependencies ≠ b.dependencies := by decide +kernel
  have same := ofDocument_perm d.reverse_perm.symm kinds apart "users" "" "" default default
  exact ⟨kinds, apart, differ, same.2.1⟩

end Analysis

end FederationGraph
