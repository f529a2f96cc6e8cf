import FederationGraph.Dependency.Basic
import FederationGraph.OrderedMap
import FederationGraph.Proofs.Parts

/-!
# Dependencies in the same order for each identity

Two lists may mix the identities in different ways and still hold the same
dependencies in the same order for each of them. That is more than being a
rearrangement of each other: of two dependencies that agree in everything but the
path, the one that comes first in one list comes first in the other.
-/
namespace FederationGraph

universe u

open Dependency

/-- Lists that hold, for each identity, the same dependencies in the same order. -/
def SameByIdentity (ds es : List Dependency) : Prop :=
  ∀ i, ds.filter (fun d => d.identity = i) = es.filter (fun d => d.identity = i)

theorem SameByIdentity.perm {ds es : List Dependency} (h : SameByIdentity ds es) : ds.Perm es := by
  rw [List.perm_iff_count]
  intro d
  -- a dependency is counted among those of its own identity
  have hc : ∀ xs : List Dependency,
      xs.count d = (xs.filter fun e => e.identity = d.identity).count d := by
    intro xs
    rw [List.count_filter (by simp)]
  rw [hc ds, hc es, h]

theorem SameByIdentity.filter {ds es : List Dependency} (h : SameByIdentity ds es)
    (p : Dependency → Bool) : SameByIdentity (ds.filter p) (es.filter p) := by
  intro i
  have hswap : ∀ xs : List Dependency, (xs.filter p).filter (fun d => d.identity = i) =
      (xs.filter fun d => d.identity = i).filter p := by
    intro xs
    simp only [List.filter_filter, Bool.and_comm]
  rw [hswap, hswap, h]

theorem SameByIdentity.append {ds es ds' es' : List Dependency} (h : SameByIdentity ds es)
    (h' : SameByIdentity ds' es') : SameByIdentity (ds ++ ds') (es ++ es') := by
  intro i
  rw [List.filter_append, List.filter_append, h, h']

theorem SameByIdentity.flatMap {α : Type u} {f g : α → List Dependency}
    (h : ∀ x, SameByIdentity (f x) (g x)) (xs : List α) :
    SameByIdentity (xs.flatMap f) (xs.flatMap g) := by
  intro i
  rw [List.filter_flatMap, List.filter_flatMap]
  congr 1
  funext x
  exact h x i

/-- Parts may change places if they are the same or share no identity. -/
theorem SameByIdentity.flatMap_perm {α : Type u} {f : α → List Dependency} {xs ys : List α}
    (p : xs.Perm ys) (apart : xs.Pairwise fun x y =>
      f x = f y ∨ ∀ d ∈ f x, ∀ e ∈ f y, d.identity ≠ e.identity) :
    SameByIdentity (xs.flatMap f) (ys.flatMap f) := by
  intro i
  rw [List.filter_flatMap, List.filter_flatMap]
  refine flatMap_eq_of_perm p (apart.imp ?_)
  rintro x y (h | h)
  · rw [h]
  · exact filter_append_comm h i

/-- What the values of two maps contribute agrees if it does key by key and the identities tell the
keys apart. -/
theorem SameByIdentity.values {α : Type u} {m n : OrderedMap α} {f g : α → List Dependency}
    (key : Identity → String)
    (hf : ∀ k value, m.get? k = some value → ∀ d ∈ f value, key d.identity = k)
    (hg : ∀ k value, n.get? k = some value → ∀ d ∈ g value, key d.identity = k)
    (h : ∀ k, (m.get? k).Rel (fun a b => SameByIdentity (f a) (g b)) (n.get? k)) :
    SameByIdentity (m.values.flatMap f) (n.values.flatMap g) := by
  intro i
  have honly : ∀ {f : α → List Dependency} {k : String} {value : α},
      (∀ d ∈ f value, key d.identity = k) → k ≠ key i →
        (f value).filter (fun d => d.identity = i) = [] := by
    intro f k value hkey hne
    rw [List.filter_eq_nil_iff]
    intro d hd hi
    have hi : d.identity = i := of_decide_eq_true hi
    exact hne ((hkey d hd).symm.trans (congrArg key hi))
  rw [List.filter_flatMap, List.filter_flatMap,
    OrderedMap.flatMap_values m (key i) _ fun k value hv => honly (hf k value hv),
    OrderedMap.flatMap_values n (key i) _ fun k value hv => honly (hg k value hv)]
  have hi := h (key i)
  cases hm : m.get? (key i) <;> cases hn : n.get? (key i) <;> rw [hm, hn] at hi <;> cases hi
  · rfl
  · rename_i hab
    exact hab i

end FederationGraph
