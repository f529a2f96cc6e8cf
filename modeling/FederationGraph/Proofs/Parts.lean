import Mathlib.Data.List.Forall2

/-!
# Lists put together from parts

Where the order of parts is not known, what they make up together is known as
far as the parts commute. Parts that have no key in common commute in what is
kept of any one key.
-/
namespace FederationGraph

universe u v

/-- What is put together from lists is the same in any order of parts that commute. -/
theorem flatMap_eq_of_perm {α : Type u} {β : Type v} {h : α → List β} {xs ys : List α}
    (p : xs.Perm ys) (commute : xs.Pairwise fun x y => h x ++ h y = h y ++ h x) :
    xs.flatMap h = ys.flatMap h := by
  induction p with
  | nil => rfl
  | cons x p ih => rw [List.flatMap_cons, List.flatMap_cons, ih commute.of_cons]
  | swap x y rest =>
    have hxy := List.rel_of_pairwise_cons commute List.mem_cons_self
    simp only [List.flatMap_cons, ← List.append_assoc, hxy]
  | trans p q ihp ihq =>
    exact (ihp commute).trans (ihq ((p.pairwise_iff fun e => e.symm).mp commute))

/-- Lists of related parts make up the same if related parts contribute the same. -/
theorem flatMap_eq_of_forall₂ {α : Type u} {γ : Type u} {β : Type v} {R : α → γ → Prop}
    {f : α → List β} {g : γ → List β} {xs : List α} {ys : List γ} (h : List.Forall₂ R xs ys)
    (hfg : ∀ x y, R x y → f x = g y) : xs.flatMap f = ys.flatMap g := by
  induction h with
  | nil => rfl
  | cons hxy hrest ih => rw [List.flatMap_cons, List.flatMap_cons, hfg _ _ hxy, ih]

/-- Where an element stands in what is put together from parts, all parts in front of its own stand
ahead of it. -/
theorem exists_of_flatMap_eq {α : Type u} {β : Type v} {f : α → List β} {xs : List α}
    {earlier later : List β} {y : β} (h : xs.flatMap f = earlier ++ y :: later) :
    ∃ front x back, xs = front ++ x :: back ∧ y ∈ f x ∧ front.flatMap f <+: earlier := by
  induction xs generalizing earlier with
  | nil => exact absurd h (by simp)
  | cons x xs ih =>
    rw [List.flatMap_cons] at h
    have hbehind : ∀ between, xs.flatMap f = between ++ y :: later → earlier = f x ++ between →
        ∃ front x' back, x :: xs = front ++ x' :: back ∧ y ∈ f x' ∧
          front.flatMap f <+: earlier := by
      rintro between hxs rfl
      obtain ⟨front, x', back, rfl, hy, hp⟩ := ih hxs
      refine ⟨x :: front, x', back, rfl, hy, ?_⟩
      rw [List.flatMap_cons]
      exact (List.prefix_append_right_inj _).mpr hp
    rcases List.append_eq_append_iff.mp h with ⟨between, he, hxs⟩ | ⟨within, hx, he⟩
    · exact hbehind between hxs he
    · cases within with
      | nil =>
        rw [List.append_nil] at hx
        exact hbehind [] he.symm (by rw [hx, List.append_nil])
      | cons z within =>
        obtain ⟨rfl, -⟩ := List.cons.inj he
        exact ⟨[], x, xs, rfl, by simp [hx], List.nil_prefix⟩

/-- What is kept of one key stands in one of two lists without a key in common. -/
theorem filter_append_comm {α : Type u} {κ : Type v} [DecidableEq κ] {key : α → κ} {xs ys : List α}
    (apart : ∀ x ∈ xs, ∀ y ∈ ys, key x ≠ key y) (k : κ) :
    xs.filter (fun x => key x = k) ++ ys.filter (fun y => key y = k) =
      ys.filter (fun y => key y = k) ++ xs.filter (fun x => key x = k) := by
  by_cases hx : ∃ x ∈ xs, key x = k
  · obtain ⟨x, hm, hk⟩ := hx
    have hy : ys.filter (fun y => key y = k) = [] := by
      rw [List.filter_eq_nil_iff]
      intro y hy hk'
      exact apart x hm y hy (hk.trans (of_decide_eq_true hk').symm)
    rw [hy, List.append_nil, List.nil_append]
  · have hx : xs.filter (fun x => key x = k) = [] := by
      rw [List.filter_eq_nil_iff]
      intro x hm hk
      exact hx ⟨x, hm, of_decide_eq_true hk⟩
    rw [hx, List.append_nil, List.nil_append]

end FederationGraph
