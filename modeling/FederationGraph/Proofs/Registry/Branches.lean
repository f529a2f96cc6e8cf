import FederationGraph.Proofs.OrderedMap
import FederationGraph.Proofs.Registry.Chain

/-!
# Branches of a walk

A walk that never merges keeps a branch for each way to go on: every owner of a
segment gives one, whether or not another branch has come to the same type. The
walk that merges the branches at every segment finds the same resolutions in the
same order, once the repeated ones among the unmerged are left out.
-/
namespace FederationGraph

variable {α β : Type} [DecidableEq α] [DecidableEq β]

theorem appendAllNew_append (known new more : List α) :
    appendAllNew known (new ++ more) = appendAllNew (appendAllNew known new) more :=
  List.foldl_append

theorem appendAllNew_of_subset {known new : List α} (h : ∀ x ∈ new, x ∈ known) :
    appendAllNew known new = known := by
  induction new with
  | nil => rfl
  | cons x new ih =>
    have hstep : appendAllNew known (x :: new) = appendAllNew (appendNew known x) new := rfl
    rw [hstep, appendNew, if_pos (h x List.mem_cons_self)]
    exact ih fun y hy => h y (List.mem_cons_of_mem x hy)

/-- What comes from elements that are repeated is repeated itself. -/
theorem distinct_flatMap_distinct (f : α → List β) (xs : List α) :
    distinct ((distinct xs).flatMap f) = distinct (xs.flatMap f) := by
  suffices h : ∀ known : List α, distinct ((appendAllNew known xs).flatMap f) =
      distinct ((known ++ xs).flatMap f) from h []
  induction xs with
  | nil =>
    intro known
    rw [List.append_nil]
    rfl
  | cons x rest ih =>
    intro known
    have hstep : appendAllNew known (x :: rest) = appendAllNew (appendNew known x) rest := rfl
    rw [hstep, ih, appendNew]
    split
    · -- an element that is known has nothing new to give
      have hold : ∀ y ∈ f x, y ∈ distinct (known.flatMap f) := fun y hy =>
        mem_distinct.mpr (List.mem_flatMap.mpr ⟨x, ‹x ∈ known›, hy⟩)
      simp only [distinct, List.flatMap_append, List.flatMap_cons, appendAllNew_append] at hold ⊢
      rw [appendAllNew_of_subset hold]
    · rw [List.append_assoc, List.singleton_append]

namespace Registry

/-- The named types of a field on all owners that it has when it is selected on a type, in order
and with repetitions. -/
def fieldTypes (r : Registry) (field typeName : String) : List String :=
  (r.owners typeName field).filterMap fun owner => r.fieldType? owner field

/-- What the last of the given segments resolves to when no branches are merged: each segment
replaces every type by the types it leads to, for all owners in order. -/
def unmergedWalk (r : Registry) (types : List String) : List String → List Resolution
  | [] => []
  | [last] => types.flatMap (r.resolveField last)
  | segment :: rest => unmergedWalk r (types.flatMap (r.fieldTypes segment)) rest

/-- No owner lacks the field, so that each gives a branch. -/
theorem map_some_fieldTypes (r : Registry) (field typeName : String) :
    (r.fieldTypes field typeName).map some =
      (r.owners typeName field).map fun owner => r.fieldType? owner field := by
  have howners : ∀ owner ∈ r.owners typeName field, (r.fieldType? owner field).isSome := by
    intro owner ho
    obtain ⟨next, hn⟩ := exists_fieldType (mem_owners.mp ho).hasField
    rw [hn, Option.isSome_some]
  rw [fieldTypes]
  generalize r.owners typeName field = owners at howners ⊢
  induction owners with
  | nil => rfl
  | cons owner rest ih =>
    obtain ⟨next, hn⟩ := Option.isSome_iff_exists.mp (howners owner List.mem_cons_self)
    have hrest := ih fun o ho => howners o (List.mem_cons_of_mem _ ho)
    simp only [List.filterMap_cons, hn, List.map_cons, hrest]

theorem map_fieldType_resolveField (r : Registry) (field typeName : String) :
    (r.resolveField field typeName).map Resolution.fieldType = r.fieldTypes field typeName := by
  rw [resolveField, fieldTypes, List.map_filterMap]
  simp [Option.map_map, Function.comp_def]

/-- A walk from types that are repeated finds nothing further. -/
theorem walk_distinct (r : Registry) (types segments : List String) :
    r.walk (distinct types) segments = r.walk types segments := by
  match segments with
  | [] => rfl
  | [last] => exact distinct_flatMap_distinct (r.resolveField last) types
  | segment :: next :: rest =>
    simp only [walk, follow, distinct_flatMap_distinct]

/-- Merging early finds what merging in the end finds. -/
theorem walk_eq_distinct_unmergedWalk (r : Registry) (types segments : List String) :
    r.walk types segments = distinct (r.unmergedWalk types segments) := by
  fun_induction unmergedWalk r types segments with
  | case1 => rfl
  | case2 types last => rfl
  | case3 types segment rest hne ih =>
    rw [walk, follow, walk_distinct]
    · simp only [map_fieldType_resolveField]
      exact ih
    · exact hne

theorem mem_resolve {r : Registry} {path start : String} {x : Resolution} :
    x ∈ r.resolve path start ↔
      r.Chain start (Path.segments path) x.owner ∧
        (Path.segments path).getLast? = some x.field ∧
          r.fieldType? x.owner x.field = some x.fieldType := by
  rw [resolve, mem_walk]
  simp

theorem resolve_eq_nil_iff {r : Registry} {path start : String} :
    r.resolve path start = [] ↔ ∀ owner, ¬ r.Chain start (Path.segments path) owner := by
  rw [resolve, ← List.map_eq_nil_iff (f := Resolution.owner), List.eq_nil_iff_forall_not_mem]
  simp only [mem_map_owner_walk, List.mem_singleton, exists_eq_left]

/-- What a path resolves to is what is left of the unmerged branches without repetitions: the ends
of the chains of owners along the path, none of them twice. -/
theorem resolve_eq_distinct_unmergedWalk (r : Registry) (path start : String) :
    (∀ field typeName, (r.fieldTypes field typeName).map some =
        (r.owners typeName field).map fun owner => r.fieldType? owner field) ∧
      r.resolve path start = distinct (r.unmergedWalk [start] (Path.segments path)) ∧
      (∀ x, x ∈ r.resolve path start ↔
        r.Chain start (Path.segments path) x.owner ∧
          (Path.segments path).getLast? = some x.field ∧
            r.fieldType? x.owner x.field = some x.fieldType) ∧
      (r.resolve path start).Nodup ∧
      (r.resolve path start = [] ↔ ∀ owner, ¬ r.Chain start (Path.segments path) owner) :=
  ⟨r.map_some_fieldTypes, walk_eq_distinct_unmergedWalk r [start] _, fun _ => mem_resolve,
    nodup_walk r [start] _, resolve_eq_nil_iff⟩

end Registry

end FederationGraph
