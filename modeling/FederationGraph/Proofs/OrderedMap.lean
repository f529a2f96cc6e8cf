import FederationGraph.Distinct
import FederationGraph.OrderedMap
import Mathlib.Data.List.Forall2

/-!
# Maps built by writing

Keys stand in the order in which they were first written. That is what remains
of all written keys, in order, when the later ones of equal keys are erased.

Maps that were written side by side under the same keys, with values that are
related each time, are related entry by entry.
-/
namespace FederationGraph

universe u v

/-- Of what is appended, the first of several equal elements stays, unless it was known before. -/
theorem appendAllNew_eq {α : Type u} [DecidableEq α] (known new : List α) :
    appendAllNew known new = known ++ (new.removeAll known).eraseDups := by
  induction new generalizing known with
  | nil => simp [appendAllNew, List.removeAll]
  | cons x new ih =>
    have hstep : appendAllNew known (x :: new) = appendAllNew (appendNew known x) new := rfl
    rw [hstep, ih, appendNew]
    by_cases hx : x ∈ known
    · rw [if_pos hx]
      simp [List.removeAll, hx]
    · rw [if_neg hx]
      -- what equals `x` is erased together with what was known
      have herase : new.removeAll (known ++ [x]) =
          (new.removeAll known).filter fun y => !(y == x) := by
        simp [List.removeAll, List.filter_filter, Bool.and_comm, Bool.beq_eq_decide_eq]
      have hcons : (x :: new).removeAll known = x :: new.removeAll known := by
        simp [List.removeAll, hx]
      rw [herase, hcons, List.eraseDups_cons, List.append_assoc, List.singleton_append]

theorem distinct_eq_eraseDups {α : Type u} [DecidableEq α] (xs : List α) :
    distinct xs = xs.eraseDups := by
  rw [distinct, appendAllNew_eq, List.nil_append, List.removeAll_nil]

namespace OrderedMap

variable {α : Type u}

theorem keys_insert_eq_appendNew (m : OrderedMap α) (key : String) (value : α) :
    (m.insert key value).keys = appendNew m.keys key :=
  keys_insert m key value

theorem keys_ofList (entries : List (String × α)) :
    (ofList entries).keys = (entries.map Prod.fst).eraseDups := by
  rw [← distinct_eq_eraseDups, FederationGraph.distinct, appendAllNew, List.foldl_map, ofList]
  exact (List.foldl_hom keys fun m entry => (keys_insert_eq_appendNew m entry.1 entry.2).symm).symm

theorem mem_of_mem_ofList {entries : List (String × α)} {entry : String × α}
    (h : entry ∈ (ofList entries).entries) : entry ∈ entries := by
  obtain ⟨key, value⟩ := entry
  rw [mem_entries, get?_ofList] at h
  obtain ⟨last, hlast, rfl⟩ := Option.map_eq_some_iff.mp h
  obtain ⟨hmem, hkey⟩ := List.mem_filter.mp (List.mem_of_getLast? hlast)
  obtain rfl : last.1 = key := by simpa using hkey
  exact hmem

theorem mem_entries_insert {m : OrderedMap α} {key : String} {value : α} {entry : String × α}
    (h : entry ∈ (m.insert key value).entries) : entry = (key, value) ∨ entry ∈ m.entries := by
  obtain ⟨other, found⟩ := entry
  rw [mem_entries, get?_insert] at h
  split at h
  · rename_i hkey
    cases h
    exact .inl (by rw [hkey])
  · exact .inr (mem_entries.mpr h)

theorem entries_insert_ne_nil (m : OrderedMap α) (key : String) (value : α) :
    (m.insert key value).entries ≠ [] := by
  have hmem : (key, value) ∈ (m.insert key value).entries := by
    rw [mem_entries, get?_insert, if_pos rfl]
  exact List.ne_nil_of_mem hmem

theorem mem_entries_map {β : Type v} {m : OrderedMap α} {f : α → β} {entry : String × α}
    (h : entry ∈ m.entries) : (entry.1, f entry.2) ∈ (m.map f).entries :=
  List.mem_map_of_mem h

theorem map_insert {β : Type v} (f : α → β) (m : OrderedMap α) (key : String) (value : α) :
    (m.insert key value).map f = (m.map f).insert key (f value) := by
  obtain ⟨entries, distinct⟩ := m
  refine ext ?_
  simp only [map, insert]
  clear distinct
  induction entries with
  | nil => rfl
  | cons entry rest ih =>
    rw [write, List.map_cons, write]
    split
    · rfl
    · rw [List.map_cons, ih]

/-! ## Writing what has distinct keys -/

theorem write_append {key : String} {value : α} {entries : List (String × α)}
    (h : key ∉ entries.map Prod.fst) : write key value entries = entries ++ [(key, value)] := by
  induction entries with
  | nil => rfl
  | cons entry rest ih =>
    simp only [List.map_cons, List.mem_cons, not_or] at h
    rw [write, if_neg (Ne.symm h.1), ih h.2]
    rfl

theorem entries_foldl_insert {entries : List (String × α)} {m : OrderedMap α}
    (h : ((m.entries ++ entries).map Prod.fst).Nodup) :
    (entries.foldl (fun m entry => m.insert entry.1 entry.2) m).entries =
      m.entries ++ entries := by
  induction entries generalizing m with
  | nil => rw [List.foldl_nil, List.append_nil]
  | cons entry rest ih =>
    have hassoc : m.entries ++ entry :: rest = m.entries ++ [entry] ++ rest := by simp
    have hkey : entry.1 ∉ m.entries.map Prod.fst := by
      rw [List.map_append, List.nodup_append] at h
      intro hmem
      exact h.2.2 _ hmem _ List.mem_cons_self rfl
    have hinsert : (m.insert entry.1 entry.2).entries = m.entries ++ [entry] := write_append hkey
    rw [List.foldl_cons, ih (by rw [hinsert, ← hassoc]; exact h), hinsert, hassoc]

theorem entries_ofList {entries : List (String × α)} (h : (entries.map Prod.fst).Nodup) :
    (ofList entries).entries = entries := by
  rw [ofList, entries_foldl_insert (by simpa [empty] using h)]
  rfl

theorem ofList_entries (m : OrderedMap α) : ofList m.entries = m :=
  ext (entries_ofList m.distinct)

/-! ## Maps written side by side -/

/-- Maps with the same keys in the same order and with related values under each. -/
def Rel {β : Type v} (R : α → β → Prop) (m : OrderedMap α) (n : OrderedMap β) : Prop :=
  List.Forall₂ (fun a b => a.1 = b.1 ∧ R a.2 b.2) m.entries n.entries

section Rel

variable {β : Type v} {R : α → β → Prop} {m : OrderedMap α} {n : OrderedMap β}

theorem Rel.empty : Rel R (empty : OrderedMap α) (empty : OrderedMap β) := .nil

theorem Rel.refl {R : α → α → Prop} (hR : ∀ a, R a a) (m : OrderedMap α) : Rel R m m :=
  List.forall₂_same.mpr fun entry _ => ⟨rfl, hR entry.2⟩

theorem Rel.insert (h : Rel R m n) (key : String) {a : α} {b : β} (hab : R a b) :
    Rel R (m.insert key a) (n.insert key b) := by
  obtain ⟨xs, hx⟩ := m
  obtain ⟨ys, hy⟩ := n
  simp only [Rel, OrderedMap.insert] at h ⊢
  clear hx hy
  induction h with
  | nil => exact .cons ⟨rfl, hab⟩ .nil
  | @cons x y xs ys hxy hrest ih =>
    obtain ⟨k, v⟩ := x
    obtain ⟨l, w⟩ := y
    obtain ⟨rfl, hvw⟩ := hxy
    rw [write, write]
    split
    · exact .cons ⟨rfl, hab⟩ hrest
    · exact .cons ⟨rfl, hvw⟩ ih

/-- A key is absent from both maps, or present in both with related values. -/
theorem Rel.get?_cases (h : Rel R m n) (key : String) :
    (m.get? key = none ∧ n.get? key = none) ∨
      ∃ a b, m.get? key = some a ∧ n.get? key = some b ∧ R a b := by
  obtain ⟨xs, hx⟩ := m
  obtain ⟨ys, hy⟩ := n
  simp only [Rel, OrderedMap.get?] at h ⊢
  clear hx hy
  induction h with
  | nil => exact .inl ⟨rfl, rfl⟩
  | @cons x y xs ys hxy hrest ih =>
    rw [List.lookup_cons, List.lookup_cons, ← hxy.1]
    cases key == x.1 with
    | true => exact .inr ⟨x.2, y.2, rfl, rfl, hxy.2⟩
    | false => exact ih

theorem Rel.keys_eq (h : Rel R m n) : m.keys = n.keys := by
  rw [keys, keys, ← List.forall₂_eq_eq_eq, List.forall₂_map_left_iff, List.forall₂_map_right_iff]
  exact h.imp fun _ _ hab => hab.1

theorem Rel.values (h : Rel R m n) : List.Forall₂ R m.values n.values := by
  rw [OrderedMap.values, OrderedMap.values, List.forall₂_map_left_iff, List.forall₂_map_right_iff]
  exact h.imp fun _ _ hab => hab.2

/-- Functions that agree on related values make the same map of related ones. -/
theorem Rel.map_eq {γ : Type v} {f : α → γ} {g : β → γ} (h : Rel R m n)
    (hfg : ∀ key a b, m.get? key = some a → R a b → f a = g b) : m.map f = n.map g := by
  have hentry : ∀ entry ∈ m.entries, ∀ b, R entry.2 b → f entry.2 = g b :=
    fun entry he b => hfg entry.1 entry.2 b (mem_entries.mp he)
  obtain ⟨xs, hx⟩ := m
  obtain ⟨ys, hy⟩ := n
  apply ext
  simp only [Rel, map] at h hentry ⊢
  clear hfg hx hy
  induction h with
  | nil => rfl
  | @cons x y xs ys hxy hrest ih =>
    have hhead := hentry x List.mem_cons_self y.2 hxy.2
    rw [List.map_cons, List.map_cons, hxy.1, hhead,
      ih fun entry he => hentry entry (List.mem_cons_of_mem _ he)]

end Rel

end OrderedMap

end FederationGraph
