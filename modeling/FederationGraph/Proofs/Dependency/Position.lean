import FederationGraph.Proofs.Dependency.Leaf
import FederationGraph.Proofs.Path
import Mathlib.Order.Fin.Basic

/-!
# Which positions a reduction keeps

Dependencies may be equal, and one may be listed more than once, so that what is
kept is told by its position. A position leads if it is the first one with the
longest path of its identity, and it is a leaf if no leading position of its
group continues it. Neither word mentions how the reduction works; the positions
it chooses turn out to be the leading ones, and those it keeps the leaves.
-/
namespace FederationGraph.Dependency

variable {ds : List Dependency}

/-- No path of the same identity is longer, and none that stands earlier is as long. -/
def Leads (ds : List Dependency) (i : Fin ds.length) : Prop :=
  ∀ j : Fin ds.length, (ds.get j).identity = (ds.get i).identity →
    (ds.get j).fieldPath.length ≤ (ds.get i).fieldPath.length ∧
      (j < i → (ds.get j).fieldPath.length < (ds.get i).fieldPath.length)

instance : DecidablePred (Leads ds) := fun _ => inferInstanceAs (Decidable (∀ _, _ → _ ∧ (_ → _)))

/-- A leading position whose path is continued by no leading position of its group. -/
def IsLeaf (ds : List Dependency) (i : Fin ds.length) : Prop :=
  Leads ds i ∧ ∀ j : Fin ds.length, Leads ds j → (ds.get j).group = (ds.get i).group →
    ¬ Path.continues (ds.get i).fieldPath (ds.get j).fieldPath

instance : DecidablePred (IsLeaf ds) := fun _ =>
  inferInstanceAs (Decidable (_ ∧ ∀ _, _ → _ → ¬ _))

theorem Leads.eq_of_identity {i j : Fin ds.length} (hi : Leads ds i) (hj : Leads ds j)
    (h : (ds.get i).identity = (ds.get j).identity) : i = j := by
  have hij := hi j h.symm
  have hji := hj i h
  rcases lt_trichotomy i j with hlt | heq | hlt
  · exact absurd (hji.2 hlt) (Nat.not_lt_of_le hij.1)
  · exact heq
  · exact absurd (hij.2 hlt) (Nat.not_lt_of_le hji.1)

theorem exists_position_of_mem_longest {n : Nat} {d : Dependency} (h : (n, d) ∈ longest ds) :
    ∃ i : Fin ds.length, i.val = n ∧ ds.get i = d := by
  obtain ⟨hn, hd⟩ := List.getElem?_eq_some_iff.mp (getElem?_of_mem_longest h)
  exact ⟨⟨n, hn⟩, rfl, hd⟩

theorem leads_of_mem_longest {i : Fin ds.length} (h : (i.val, ds.get i) ∈ longest ds) :
    Leads ds i := by
  have hlongest : firstLongest ds (ds.get i).identity = some (ds.get i) :=
    exists_mem_longest.mp ⟨_, h⟩
  intro j hj
  constructor
  · obtain ⟨e, he, hle⟩ := le_firstLongest (ds.get_mem j)
    have hsame : ds.get i = e := Option.some.inj (by rw [← hlongest, ← hj]; exact he)
    exact hsame ▸ hle
  · intro hlt
    have hfront : ds.get j ∈ ds.take i := List.mem_take_iff_getElem.mpr ⟨j, by omega, rfl⟩
    obtain ⟨e, he, hle⟩ := le_firstLongest hfront
    have hbeats := improves_of_mem_longest h
    rw [← hj, he] at hbeats
    exact hle.trans_lt (of_decide_eq_true hbeats)

/-- Every position has a chosen one of its identity, whose path is no shorter. -/
theorem exists_mem_longest_of_identity (i : Fin ds.length) :
    ∃ j : Fin ds.length, (j.val, ds.get j) ∈ longest ds ∧
      (ds.get j).identity = (ds.get i).identity ∧
        (ds.get i).fieldPath.length ≤ (ds.get j).fieldPath.length := by
  obtain ⟨e, he, hle⟩ := le_firstLongest (ds.get_mem i)
  have hidentity := identity_of_firstLongest he
  obtain ⟨n, hn⟩ := exists_mem_longest.mpr (hidentity ▸ he)
  obtain ⟨j, rfl, rfl⟩ := exists_position_of_mem_longest hn
  exact ⟨j, hn, hidentity, hle⟩

/-- The chosen positions are the leading ones. -/
theorem mem_longest_iff_leads {i : Fin ds.length} :
    (i.val, ds.get i) ∈ longest ds ↔ Leads ds i := by
  refine ⟨leads_of_mem_longest, fun h => ?_⟩
  obtain ⟨j, hj, hidentity, -⟩ := exists_mem_longest_of_identity i
  rwa [h.eq_of_identity (leads_of_mem_longest hj) hidentity.symm]

theorem exists_leads (i : Fin ds.length) :
    ∃ j : Fin ds.length, Leads ds j ∧ (ds.get j).identity = (ds.get i).identity ∧
      (ds.get i).fieldPath.length ≤ (ds.get j).fieldPath.length := by
  obtain ⟨j, hj, h⟩ := exists_mem_longest_of_identity i
  exact ⟨j, leads_of_mem_longest hj, h⟩

theorem isContinued_longest_iff {i : Fin ds.length} :
    isContinued (longest ds) (ds.get i) = true ↔
      ∃ j : Fin ds.length, Leads ds j ∧ (ds.get j).group = (ds.get i).group ∧
        Path.continues (ds.get i).fieldPath (ds.get j).fieldPath := by
  simp only [isContinued, List.any_eq_true, Bool.and_eq_true, decide_eq_true_eq]
  constructor
  · rintro ⟨⟨n, e⟩, hn, h⟩
    obtain ⟨j, rfl, rfl⟩ := exists_position_of_mem_longest hn
    exact ⟨j, leads_of_mem_longest hn, h⟩
  · rintro ⟨j, hj, h⟩
    exact ⟨(j.val, ds.get j), mem_longest_iff_leads.mpr hj, h⟩

/-- A position is kept if and only if it is a leaf. -/
theorem mem_keptPositions_iff_isLeaf {i : Fin ds.length} :
    i.val ∈ keptPositions ds ↔ IsLeaf ds i := by
  have hcontinued : isContinued (longest ds) (ds.get i) = false ↔
      ∀ j : Fin ds.length, Leads ds j → (ds.get j).group = (ds.get i).group →
        ¬ Path.continues (ds.get i).fieldPath (ds.get j).fieldPath := by
    rw [← Bool.not_eq_true, isContinued_longest_iff]
    simp only [not_exists, not_and]
  rw [mem_keptPositions, IsLeaf, ← mem_longest_iff_leads, ← hcontinued]
  constructor
  · rintro ⟨d, hd, hc⟩
    obtain ⟨j, hj, rfl⟩ := exists_position_of_mem_longest hd
    obtain rfl := Fin.ext hj
    exact ⟨hd, hc⟩
  · rintro ⟨hd, hc⟩
    exact ⟨_, hd, hc⟩

/-- The leaves in order. -/
def leaves (ds : List Dependency) : List (Fin ds.length) :=
  (List.finRange ds.length).filter fun i => IsLeaf ds i

theorem mem_leaves {i : Fin ds.length} : i ∈ leaves ds ↔ IsLeaf ds i := by
  simp [leaves]

theorem keptPositions_eq (ds : List Dependency) :
    keptPositions ds = (leaves ds).map Fin.val := by
  have hmem : ∀ i : Fin ds.length,
      (((longest ds).filter fun entry => !isContinued (longest ds) entry.2).map
        Prod.fst).contains i.val = decide (IsLeaf ds i) := by
    intro i
    rw [Bool.eq_iff_iff, decide_eq_true_eq, ← mem_keptPositions_iff_isLeaf, keptPositions,
      List.mem_filter]
    simp
  rw [keptPositions, leaves, ← List.map_coe_finRange_eq_range, List.filter_map]
  congr 1
  exact List.filter_congr fun i _ => hmem i

/-- What is kept stands at the leaves. -/
theorem reduce_eq (ds : List Dependency) : reduce ds = (leaves ds).map ds.get := by
  rw [reduce, keptPositions_eq, List.filterMap_map, ← List.filterMap_eq_map]
  refine List.filterMap_congr fun i _ => ?_
  simp

end FederationGraph.Dependency
