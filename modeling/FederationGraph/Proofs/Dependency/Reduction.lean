import FederationGraph.Proofs.Dependency.Position
import Mathlib.Data.Fin.VecNotation
import Mathlib.Data.Finset.Max
import Mathlib.Data.Fintype.Basic

/-!
# Reductions to the leaves

A reduction leaves out what a longer path of the same identity or of the same
group stands for, and nothing else: from every dependency a way leads over the
longest one of its identity to a leaf. What remains has distinct identities and
no path continuing another within a group, so that reducing again changes
nothing. Which entries remain does not depend on how entries of distinct
identities are mixed.
-/
namespace FederationGraph.Dependency

variable {ds es : List Dependency}

theorem mem_reduce_iff_isLeaf {d : Dependency} :
    d ∈ reduce ds ↔ ∃ i : Fin ds.length, IsLeaf ds i ∧ ds.get i = d := by
  rw [reduce_eq, List.mem_map]
  simp only [mem_leaves]

/-! ## Nothing is lost -/

/-- From a leading position a leaf is reached by going down its path. -/
theorem Leads.exists_isLeaf {i : Fin ds.length} (h : Leads ds i) :
    ∃ j : Fin ds.length, IsLeaf ds j ∧ (ds.get j).group = (ds.get i).group ∧
      Path.segments (ds.get i).fieldPath <+: Path.segments (ds.get j).fieldPath := by
  let below : Finset (Fin ds.length) := {j | Leads ds j ∧ (ds.get j).group = (ds.get i).group ∧
    Path.segments (ds.get i).fieldPath <+: Path.segments (ds.get j).fieldPath}
  have hmem : ∀ j, j ∈ below ↔ Leads ds j ∧ (ds.get j).group = (ds.get i).group ∧
      Path.segments (ds.get i).fieldPath <+: Path.segments (ds.get j).fieldPath := by
    intro j
    simp [below]
  have hself : i ∈ below := (hmem i).mpr ⟨h, rfl, List.prefix_rfl⟩
  -- a longest path below the position is continued by none, since that would be longer
  obtain ⟨j, hj, hlongest⟩ :=
    below.exists_max_image (fun j => (ds.get j).fieldPath.length) ⟨i, hself⟩
  obtain ⟨hleads, hgroup, hbegins⟩ := (hmem j).mp hj
  refine ⟨j, ⟨hleads, fun k hk hkgroup hcontinues => ?_⟩, hgroup, hbegins⟩
  have hkbegins := hbegins.trans (Path.continues_iff_segments.mp hcontinues).1
  have hle := hlongest k ((hmem k).mpr ⟨hk, hkgroup.trans hgroup, hkbegins⟩)
  exact Nat.not_lt_of_le hle (Path.length_lt_of_continues hcontinues)

theorem sublist_reduce (ds : List Dependency) : (reduce ds).Sublist ds := by
  have h : (leaves ds).Sublist (List.finRange ds.length) := List.filter_sublist
  have hmap := h.map ds.get
  rwa [← reduce_eq, List.map_get_finRange] at hmap

theorem not_continues_of_mem_reduce {d e : Dependency} (hd : d ∈ reduce ds) (he : e ∈ reduce ds)
    (h : e.group = d.group) : ¬ Path.continues d.fieldPath e.fieldPath := by
  obtain ⟨i, hi, rfl⟩ := mem_reduce_iff_isLeaf.mp hd
  obtain ⟨j, hj, rfl⟩ := mem_reduce_iff_isLeaf.mp he
  exact hi.2 j hj.1 h

/-- What it means that `rs` holds the leaves of `ds` and stands for all of them. -/
structure IsReduction (ds rs : List Dependency) : Prop where
  sublist : rs.Sublist ds
  distinct : rs.Pairwise fun d e => d.identity ≠ e.identity
  /-- Within a group, no path goes on where another ends. -/
  prefixFree : ∀ d ∈ rs, ∀ e ∈ rs, d.group = e.group →
    Path.segments d.fieldPath <+: Path.segments e.fieldPath → d.fieldPath = e.fieldPath
  /-- A longest one of its identity stands for a dependency, and a leaf for that one. -/
  covers : ∀ d ∈ ds, ∃ r ∈ ds, r.identity = d.identity ∧
    d.fieldPath.length ≤ r.fieldPath.length ∧
      ∃ leaf ∈ rs, leaf.group = d.group ∧
        Path.segments r.fieldPath <+: Path.segments leaf.fieldPath

/-- A reduction loses nothing and leaves only leaves. -/
theorem isReduction_reduce (ds : List Dependency) : IsReduction ds (reduce ds) where
  sublist := sublist_reduce ds
  distinct := pairwise_reduce ds
  prefixFree := by
    intro d hd e he hgroup hbegins
    by_contra hne
    exact not_continues_of_mem_reduce hd he hgroup.symm
      (Path.continues_iff_segments.mpr ⟨hbegins, hne⟩)
  covers := by
    intro d hd
    obtain ⟨k, rfl⟩ := List.get_of_mem hd
    obtain ⟨i, hleads, hidentity, hle⟩ := exists_leads k
    obtain ⟨j, hleaf, hgroup, hbegins⟩ := hleads.exists_isLeaf
    have hsame : (ds.get i).group = (ds.get k).group := congrArg Identity.group hidentity
    exact ⟨ds.get i, ds.get_mem _, hidentity, hle, ds.get j,
      mem_reduce_iff_isLeaf.mpr ⟨j, hleaf, rfl⟩, hgroup.trans hsame, hbegins⟩

/-! ## What is kept -/

/-- Of equal dependencies none stands in front of a leading one. -/
theorem Leads.le_of_get_eq {i j : Fin ds.length} (hi : Leads ds i)
    (h : ds.get j = ds.get i) : i ≤ j := by
  by_contra hlt
  have hshorter := (hi j (congrArg identity h)).2 (not_le.mp hlt)
  rw [h] at hshorter
  exact Nat.lt_irrefl _ hshorter

/-- The positions that a reduction keeps are the leaves, in order and once each. Where one record is
listed at several positions, they are the first positions of the records that stand at leaves. -/
theorem reduce_eq_filter_isLeaf (ds : List Dependency) :
    keptPositions ds = ((List.finRange ds.length).filter fun i => IsLeaf ds i).map Fin.val ∧
      reduce ds = ((List.finRange ds.length).filter fun i => IsLeaf ds i).map ds.get ∧
        ∀ record : Fin ds.length → Nat, (∀ i j, record i = record j → ds.get i = ds.get j) →
          ∀ i, IsLeaf ds i ↔
            (∃ j, IsLeaf ds j ∧ record j = record i) ∧ ∀ j < i, record j ≠ record i := by
  refine ⟨keptPositions_eq ds, reduce_eq ds, fun record same i => ⟨fun hi => ?_, ?_⟩⟩
  · refine ⟨⟨i, hi, rfl⟩, fun j hlt hrecord => ?_⟩
    exact absurd hlt (not_lt.mpr (hi.1.le_of_get_eq (same j i hrecord)))
  · rintro ⟨⟨j, hj, hrecord⟩, hfirst⟩
    have hle : j ≤ i := hj.1.le_of_get_eq (same i j hrecord.symm)
    obtain rfl : j = i := hle.eq_of_not_lt fun hlt => hfirst j hlt hrecord
    exact hj

/-- A record gives way to a longer one of its identity, and that one to a leaf of its group. -/
example :
    let needs (field path : String) : Dependency :=
      ⟨"Cart", "total", "carts", "Item", field, .requires, path⟩
    keptPositions [needs "id" "item", needs "id" "item.id", needs "sku" "item.id.sku",
      needs "id" "item"] = [2] := by
  decide +kernel

/-! ## Reducing again -/

/-- Where the identities are distinct and no path continues another of its group, everything is a
leaf. -/
theorem reduce_eq_self (distinct : ds.Pairwise fun d e => d.identity ≠ e.identity)
    (free : ∀ d ∈ ds, ∀ e ∈ ds, e.group = d.group → ¬ Path.continues d.fieldPath e.fieldPath) :
    reduce ds = ds := by
  have hlt : ∀ i j : Fin ds.length, i < j → (ds.get i).identity ≠ (ds.get j).identity :=
    fun i j hij => List.pairwise_iff_get.mp distinct i j hij
  have hleads : ∀ i, Leads ds i := by
    intro i j h
    obtain rfl : j = i := by
      rcases lt_trichotomy j i with hji | heq | hij
      · exact absurd h (hlt j i hji)
      · exact heq
      · exact absurd h.symm (hlt i j hij)
    exact ⟨Nat.le_refl _, fun hself => absurd hself (lt_irrefl j)⟩
  have hleaf : ∀ i, IsLeaf ds i := fun i =>
    ⟨hleads i, fun j _ => free (ds.get i) (ds.get_mem _) (ds.get j) (ds.get_mem _)⟩
  have hleaves : leaves ds = List.finRange ds.length :=
    List.filter_eq_self.mpr fun i _ => decide_eq_true (hleaf i)
  rw [reduce_eq, hleaves]
  exact List.map_get_finRange ds

theorem reduce_reduce (ds : List Dependency) : reduce (reduce ds) = reduce ds :=
  reduce_eq_self (pairwise_reduce ds) fun _ hd _ he => not_continues_of_mem_reduce hd he

/-! ## Other orders of the same entries -/

/-- A rearrangement of entries that keeps those of one identity in order. -/
structure Rearrangement (ds es : List Dependency) where
  move : Fin ds.length ≃ Fin es.length
  same : ∀ i, es.get (move i) = ds.get i
  order : ∀ i j, i < j → (ds.get i).identity = (ds.get j).identity → move i < move j

namespace Rearrangement

theorem get_symm (r : Rearrangement ds es) (j : Fin es.length) :
    ds.get (r.move.symm j) = es.get j := by
  have h := r.same (r.move.symm j)
  simpa using h.symm

/-- The entries put back in their places. -/
def symm (r : Rearrangement ds es) : Rearrangement es ds where
  move := r.move.symm
  same := r.get_symm
  order := by
    intro i j hij hidentity
    rcases lt_trichotomy (r.move.symm i) (r.move.symm j) with hlt | heq | hlt
    · exact hlt
    · exact absurd (r.move.symm.injective heq) hij.ne
    · -- otherwise moving them would have put the later one first
      have hmoved := r.order _ _ hlt (by rw [r.get_symm, r.get_symm, hidentity])
      rw [r.move.apply_symm_apply, r.move.apply_symm_apply] at hmoved
      exact absurd hmoved hij.asymm

theorem leads (r : Rearrangement ds es) {i : Fin ds.length} (h : Leads ds i) :
    Leads es (r.move i) := by
  intro j hj
  obtain ⟨k, rfl⟩ := r.move.surjective j
  rw [r.same, r.same] at hj ⊢
  refine ⟨(h k hj).1, fun hlt => (h k hj).2 ?_⟩
  rcases lt_trichotomy k i with hki | rfl | hik
  · exact hki
  · exact absurd hlt (lt_irrefl _)
  · exact absurd hlt (r.order i k hik hj.symm).asymm

theorem leads_iff (r : Rearrangement ds es) {i : Fin ds.length} :
    Leads es (r.move i) ↔ Leads ds i := by
  refine ⟨fun h => ?_, r.leads⟩
  have hback := r.symm.leads h
  rwa [show r.symm.move (r.move i) = i from r.move.symm_apply_apply i] at hback

theorem isLeaf_iff (r : Rearrangement ds es) {i : Fin ds.length} :
    IsLeaf es (r.move i) ↔ IsLeaf ds i := by
  rw [IsLeaf, IsLeaf, r.leads_iff, ← r.move.forall_congr_right]
  simp only [r.leads_iff, r.same]

theorem leaves_perm (r : Rearrangement ds es) : (leaves es).Perm ((leaves ds).map r.move) := by
  have hnodup : ∀ ds : List Dependency, (leaves ds).Nodup := fun ds =>
    (List.nodup_finRange _).filter _
  rw [List.perm_ext_iff_of_nodup (hnodup es) ((hnodup ds).map r.move.injective)]
  intro j
  obtain ⟨i, rfl⟩ := r.move.surjective j
  rw [mem_leaves, r.isLeaf_iff, List.mem_map_of_injective r.move.injective, mem_leaves]

end Rearrangement

/-- However entries of distinct identities are mixed, the same ones are kept. -/
theorem reduce_perm_of_rearrangement (r : Rearrangement ds es) :
    (reduce es).Perm (reduce ds) ∧
      ∀ i, (r.move i).val ∈ keptPositions es ↔ i.val ∈ keptPositions ds := by
  constructor
  · have hsame : es.get ∘ r.move = ds.get := funext r.same
    rw [reduce_eq, reduce_eq, ← hsame, ← List.map_map]
    exact r.leaves_perm.map _
  · intro i
    rw [mem_keptPositions_iff_isLeaf, mem_keptPositions_iff_isLeaf, r.isLeaf_iff]

/-- A leaf of another identity moves to the front and the pruned records close up. -/
theorem reduce_perm_of_rearrangement_mixed :
    let needs (field path : String) : Dependency :=
      ⟨"Cart", "total", "carts", "Item", field, .requires, path⟩
    let ds := [needs "id" "item", needs "sku" "item.id.sku", needs "id" "item.id",
      needs "name" "name"]
    let es := [needs "name" "name", needs "id" "item", needs "id" "item.id",
      needs "sku" "item.id.sku"]
    keptPositions ds = [1, 3] ∧ keptPositions es = [0, 3] ∧ (reduce es).Perm (reduce ds) := by
  intro needs ds es
  let r : Rearrangement ds es := {
    move := ⟨![1, 3, 2, 0], ![3, 0, 2, 1], by decide, by decide⟩
    same := by decide
    order := by decide +kernel }
  exact ⟨by decide +kernel, by decide +kernel, (reduce_perm_of_rearrangement r).1⟩

end FederationGraph.Dependency
