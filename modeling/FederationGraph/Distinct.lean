/-!
# Lists without repetitions

Appending only what is new keeps the first of several equal elements and the
order in which elements first appear.
-/
namespace FederationGraph

universe u

variable {α : Type u} [DecidableEq α]

/-- The list with an element at its end, unless it is already there. -/
def appendNew (known : List α) (x : α) : List α := if x ∈ known then known else known ++ [x]

/-- The list with further elements at its end, each unless it is already there. -/
def appendAllNew (known new : List α) : List α := new.foldl appendNew known

/-- The elements of a list in order of first appearance. -/
def distinct (xs : List α) : List α := appendAllNew [] xs

omit [DecidableEq α] in
private theorem nodup_append_singleton {known : List α} {x : α} (h : known.Nodup)
    (hx : x ∉ known) : (known ++ [x]).Nodup :=
  List.nodup_append.2 ⟨h, by simp, by
    intro a ha b hb e
    simp only [List.mem_singleton] at hb
    exact hx (hb ▸ e ▸ ha)⟩

theorem nodup_appendNew {known : List α} {x : α} (h : known.Nodup) : (appendNew known x).Nodup := by
  unfold appendNew
  split
  · exact h
  · exact nodup_append_singleton h ‹_›

theorem mem_appendNew {known : List α} {x y : α} : y ∈ appendNew known x ↔ y ∈ known ∨ y = x := by
  unfold appendNew
  split
  · exact ⟨Or.inl, fun h => h.elim id (· ▸ ‹_›)⟩
  · simp

theorem nodup_appendAllNew {known new : List α} (h : known.Nodup) :
    (appendAllNew known new).Nodup := by
  induction new generalizing known with
  | nil => exact h
  | cons x new ih => exact ih (nodup_appendNew h)

theorem mem_appendAllNew {known new : List α} {y : α} :
    y ∈ appendAllNew known new ↔ y ∈ known ∨ y ∈ new := by
  induction new generalizing known with
  | nil => simp [appendAllNew]
  | cons x new ih =>
    have h : y ∈ appendAllNew (appendNew known x) new ↔ y ∈ appendNew known x ∨ y ∈ new := ih
    simp only [appendAllNew, List.foldl_cons] at h ⊢
    rw [h, mem_appendNew, List.mem_cons, or_assoc]

theorem nodup_distinct (xs : List α) : (distinct xs).Nodup := nodup_appendAllNew List.nodup_nil

theorem mem_distinct {xs : List α} {y : α} : y ∈ distinct xs ↔ y ∈ xs := by
  simp [distinct, mem_appendAllNew]

end FederationGraph
