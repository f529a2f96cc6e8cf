import FederationGraph.Dependency.Query
import FederationGraph.Proofs.Dependency.Reduction
import Mathlib.Data.List.Sort

/-!
# Queries and their options

A query selects first and reduces afterwards, so that its options decide what
competes in the reduction. An option that goes by the group keeps or drops whole
groups, and groups never compete with each other: it may as well be applied to
what the reduction holds. One that goes by the depended field keeps or drops
whole identities. What the reduction held is held again then, but a record may
show up that had given way to a longer path to another field.
-/
namespace FederationGraph

namespace Dependency

variable {ds : List Dependency}

/-! ## The order of what is kept -/

/-- Whether `d` is listed for the first time ahead of `e`. -/
def Ahead (ds : List Dependency) (d e : Dependency) : Prop := ds.idxOf d < ds.idxOf e

instance : Std.Irrefl (Ahead ds) := ⟨fun _ => Nat.lt_irrefl _⟩

instance : Std.Antisymm (Ahead ds) := ⟨fun _ _ hde hed => absurd hed (Nat.lt_asymm hde)⟩

/-- Dependencies that are left out leave the order of the others as it is. -/
theorem ahead_filter {p : Dependency → Bool} {d e : Dependency} (hd : p d = true)
    (he : p e = true) : Ahead (ds.filter p) d e ↔ Ahead ds d e := by
  unfold Ahead
  induction ds with
  | nil => rfl
  | cons x ds ih =>
    by_cases hxd : x = d
    · subst hxd
      by_cases hxe : x = e
      · simp [hxe]
      · simp [hd, List.idxOf_cons_ne _ hxe]
    · by_cases hxe : x = e
      · subst hxe
        simp [he, List.idxOf_cons_ne _ hxd]
      · cases hx : p x <;> simpa [hx, List.idxOf_cons_ne _ hxd, List.idxOf_cons_ne _ hxe] using ih

/-- Of equal dependencies it is the first one that is a leaf. -/
theorem IsLeaf.idxOf_get {i : Fin ds.length} (h : IsLeaf ds i) : ds.idxOf (ds.get i) = i := by
  have hlt : ds.idxOf (ds.get i) < ds.length := List.idxOf_lt_length_of_mem (ds.get_mem i)
  have hfirst : i.val ≤ ds.idxOf (ds.get i) := h.1.le_of_get_eq (List.idxOf_get hlt)
  have hle : ds.idxOf (ds.get i) ≤ i := by
    by_contra hgt
    -- `i` would come before the first place where its own dependency is found
    have hother := List.not_of_lt_findIdx (not_le.mp hgt)
    simp at hother
  omega

theorem pairwise_ahead_reduce (ds : List Dependency) : (reduce ds).Pairwise (Ahead ds) := by
  have hleaves : (leaves ds).Pairwise (· < ·) := (List.pairwise_lt_finRange _).filter _
  rw [reduce_eq, List.pairwise_map]
  apply hleaves.imp_of_mem
  intro i j hi hj hij
  unfold Ahead
  rw [(mem_leaves.mp hi).idxOf_get, (mem_leaves.mp hj).idxOf_get]
  exact hij

theorem pairwise_ahead_reduce_filter {p : Dependency → Bool} :
    (reduce (ds.filter p)).Pairwise (Ahead ds) := by
  apply (pairwise_ahead_reduce (ds.filter p)).imp_of_mem
  intro d e hd he hde
  have hsub := (sublist_reduce (ds.filter p)).subset
  exact (ahead_filter (List.mem_filter.mp (hsub hd)).2 (List.mem_filter.mp (hsub he)).2).mp hde

/-! ## Selecting first -/

/-- What is chosen for an identity does not depend on the others. -/
theorem firstLongest_filter (p : Identity → Bool) (i : Identity) :
    firstLongest (ds.filter fun d => p d.identity) i =
      if p i then firstLongest ds i else none := by
  unfold firstLongest
  rw [List.filter_filter]
  split
  · rename_i hp
    congr 1
    apply List.filter_congr
    intro d _
    by_cases hd : d.identity = i <;> simp [hd, hp]
  · rename_i hp
    have hnone : ds.filter (fun d => decide (d.identity = i) && p d.identity) = [] := by
      rw [List.filter_eq_nil_iff]
      intro d _
      by_cases hd : d.identity = i <;> simp [hd, hp]
    rw [hnone]
    rfl

theorem mem_reduce_iff {d : Dependency} :
    d ∈ reduce ds ↔ firstLongest ds d.identity = some d ∧
      ∀ e, firstLongest ds e.identity = some e → e.group = d.group →
        ¬ Path.continues d.fieldPath e.fieldPath := by
  rw [mem_reduce, ← Bool.not_eq_true, isContinued_longest]
  simp only [not_exists, not_and]

/-- Records of some identities compete in a smaller field when the others are left out first. -/
theorem mem_reduce_filter (p : Identity → Bool) {d : Dependency} :
    d ∈ reduce (ds.filter fun d => p d.identity) ↔
      p d.identity = true ∧ firstLongest ds d.identity = some d ∧
        ∀ e, p e.identity = true → firstLongest ds e.identity = some e → e.group = d.group →
          ¬ Path.continues d.fieldPath e.fieldPath := by
  rw [mem_reduce_iff]
  simp only [firstLongest_filter]
  by_cases hp : p d.identity = true
  · simp only [hp, if_true, true_and]
    apply and_congr_right
    intro _
    apply forall_congr'
    intro e
    split <;> simp [*]
  · simp [hp]

theorem filter_reduce_sublist (p : Identity → Bool) (ds : List Dependency) :
    ((reduce ds).filter fun d => p d.identity).Sublist
      (reduce (ds.filter fun d => p d.identity)) := by
  have hleft := (pairwise_ahead_reduce ds).filter fun d => p d.identity
  -- both are in the order of `ds` and list nothing twice, so their members decide
  refine List.sublist_of_subperm_of_pairwise (List.subperm_of_subset hleft.nodup ?_) hleft
    pairwise_ahead_reduce_filter
  intro d hd
  obtain ⟨hkept, hp⟩ := List.mem_filter.mp hd
  obtain ⟨hlongest, hfree⟩ := mem_reduce_iff.mp hkept
  exact (mem_reduce_filter p).mpr ⟨hp, hlongest, fun e _ => hfree e⟩

/-- Groups do not compete, so it makes no difference when whole groups are left out. -/
theorem reduce_filter_group (p : Group → Bool) (ds : List Dependency) :
    reduce (ds.filter fun d => p d.group) = (reduce ds).filter fun d => p d.group := by
  have hright := (pairwise_ahead_reduce ds).filter fun d => p d.group
  refine List.Pairwise.eq_of_mem_iff pairwise_ahead_reduce_filter hright fun d => ?_
  apply (mem_reduce_filter fun i => p i.group).trans
  rw [List.mem_filter, mem_reduce_iff]
  constructor
  · rintro ⟨hp, hlongest, hfree⟩
    refine ⟨⟨hlongest, fun e he hgroup => hfree e ?_ he hgroup⟩, hp⟩
    show p e.group = true
    rw [hgroup]
    exact hp
  · rintro ⟨⟨hlongest, hfree⟩, hp⟩
    exact ⟨hp, hlongest, fun e _ => hfree e⟩

end Dependency

/-! ## Options -/

theorem Query.select_others (name : String) (field : Option String) (direct : Bool)
    (ds : List Dependency) :
    select ⟨name, field, direct, false⟩ ds =
      (select ⟨name, field, direct, true⟩ ds).filter fun d => d.group.dependingType ≠ name := by
  unfold select
  rw [List.filter_filter]
  apply List.filter_congr
  intro d _
  rw [Bool.eq_iff_iff, Bool.and_eq_true, decide_eq_true_eq]
  simp [selects, Dependency.group]
  tauto

theorem Query.select_field (name field : String) (direct includeSameType : Bool)
    (ds : List Dependency) :
    select ⟨name, some field, direct, includeSameType⟩ ds =
      (select ⟨name, none, direct, includeSameType⟩ ds).filter
        fun d => d.identity.dependedField = field := by
  unfold select
  rw [List.filter_filter]
  apply List.filter_congr
  intro d _
  rw [Bool.eq_iff_iff, Bool.and_eq_true, decide_eq_true_eq]
  simp [selects, Dependency.identity]
  tauto

namespace Analysis

theorem query_eq {a : Analysis} {q : Query} (h : a.registry.contains q.typeName = true) :
    a.query q = .ok (Dependency.reduce (q.select a.dependencies)) := by
  obtain ⟨type, ht⟩ := Option.isSome_iff_exists.mp h
  rw [query, Analysis.type, ht]
  rfl

/-- Leaving out the type's own fields takes their dependencies from the answer and nothing else.
Asking for one field gives back, in order, what the answer held of it. -/
theorem query_options {a : Analysis} {name : String} (h : a.registry.contains name = true)
    (direct : Bool) :
    (∀ field, ∃ ds, a.query ⟨name, field, direct, true⟩ = .ok ds ∧
      a.query ⟨name, field, direct, false⟩ = .ok (ds.filter fun d => d.dependingType ≠ name)) ∧
    ∀ field includeSameType, ∃ ds es,
      a.query ⟨name, none, direct, includeSameType⟩ = .ok ds ∧
        a.query ⟨name, some field, direct, includeSameType⟩ = .ok es ∧
          (ds.filter fun d => d.dependedField = field).Sublist es := by
  constructor
  · intro field
    refine ⟨_, query_eq h, ?_⟩
    rw [query_eq h, Query.select_others]
    exact congrArg Except.ok (Dependency.reduce_filter_group (fun g => g.dependingType ≠ name) _)
  · intro field includeSameType
    refine ⟨_, _, query_eq h, query_eq h, ?_⟩
    rw [Query.select_field]
    exact Dependency.filter_reduce_sublist (fun i => i.dependedField = field) _

/-- A record that had given way to a path to another field shows up when its own is asked for. -/
theorem query_options_of_replaced :
    let item : SchemaType := ⟨"Item", .empty, false, false, [], ["id"], []⟩
    let needs (type field path : String) : Dependency :=
      ⟨type, "total", "carts", "Item", field, .requires, path⟩
    let a : Analysis := ⟨⟨.ofList [("Item", item)], .empty⟩,
      [needs "Cart" "id" "item.id", needs "Item" "id" "id", needs "Cart" "sku" "item.id.sku"],
      default⟩
    let all := [needs "Item" "id" "id", needs "Cart" "sku" "item.id.sku"]
    a.registry.contains "Item" = true ∧ a.query ⟨"Item", none, false, true⟩ = .ok all ∧
      a.query ⟨"Item", none, false, false⟩ = .ok [needs "Cart" "sku" "item.id.sku"] ∧
      ∃ es, a.query ⟨"Item", some "id", false, true⟩ = .ok es ∧
        [needs "Item" "id" "id"].Sublist es ∧ ¬ es ⊆ all := by
  intro item needs a all
  have h : a.registry.contains "Item" = true := rfl
  have hall : a.query ⟨"Item", none, false, true⟩ = .ok all := by
    rw [query_eq h]
    decide +kernel
  have hid : a.query ⟨"Item", some "id", false, true⟩ =
      .ok [needs "Cart" "id" "item.id", needs "Item" "id" "id"] := by
    rw [query_eq h]
    decide +kernel
  obtain ⟨hothers, hfield⟩ := query_options h false
  refine ⟨h, hall, ?_, ?_⟩
  · obtain ⟨ds, hds, hfiltered⟩ := hothers none
    cases hall.symm.trans hds
    exact hfiltered
  · obtain ⟨ds, es, hds, hes, hsub⟩ := hfield "id" true
    cases hall.symm.trans hds
    cases hid.symm.trans hes
    exact ⟨_, hid, hsub, by decide +kernel⟩

end Analysis

end FederationGraph
